import BookmarksApi.Machinery.Runs
import BookmarksApi.Services.Auth
import Mathlib.Data.Fintype.Basic

/-!
# Concurrent/Registration — two requests for one name

`register` looks the address up, then the name, and inserts under the unique indexes on both.  The
indexes alone keep accounts apart (`Accounts.run`); but a request whose address or name is committed
by another between its lookup and its insert ends in an `IntegrityError`, which nothing handles
(`not_registersSafely`), where the lookup would have made it a 409.
-/

variable {P : Platform}

/-- A request to register: what `AuthService.register` is called with, and the hash it makes. -/
structure Registration where
  username : Str
  email : Str
  passwordHash : Str
  now : ℤ

/-- How far it has come. -/
inductive Registering
  | start
  /-- Nobody has the address. -/
  | emailFree
  /-- Nobody has the name either; the insert is next. -/
  | usernameFree
  /-- `refresh` has yet to select the row. -/
  | refreshing (id : ℤ)
  | done (result : Except Exc UserRow)
  deriving DecidableEq

namespace Registering

/-- **The next statement of a registration**, with the phase it leads to. -/
def next (P : Platform) (r : Registration) (db : Db) : Registering → Option (Db × Registering)
  | start => some (db,
      if (UserRepository.getByEmail P db (P.norm r.email)).isSome then
        done (.error (.app AuthService.emailTaken))
      else emailFree)
  | emailFree => some (db,
      if (UserRepository.getByUsername db r.username).isSome then
        done (.error (.app AuthService.usernameTaken))
      else usernameFree)
  | usernameFree =>
    match db.insertUser P r.now r.username (P.norm r.email) r.passwordHash with
    | .error e => some (db, done (.error e))
    | .ok (db', user) => some (db', refreshing user.id)
  | refreshing id => some (db, done (UserRepository.refresh db id))
  | done _ => none

/-- **All a statement can do.** -/
inductive Move (P : Platform) (r : Registration) (db : Db) : Registering → Db → Registering → Prop
  | emailTaken (hfound : UserRepository.getByEmail P db (P.norm r.email) ≠ none) :
      Move P r db start db (done (.error (.app AuthService.emailTaken)))
  | emailFree (hfree : UserRepository.getByEmail P db (P.norm r.email) = none) :
      Move P r db start db emailFree
  | usernameTaken (hfound : UserRepository.getByUsername db r.username ≠ none) :
      Move P r db emailFree db (done (.error (.app AuthService.usernameTaken)))
  | usernameFree (hfree : UserRepository.getByUsername db r.username = none) :
      Move P r db emailFree db usernameFree
  | refused {x : Exc}
      (hins : db.insertUser P r.now r.username (P.norm r.email) r.passwordHash = .error x) :
      Move P r db usernameFree db (done (.error x))
  | inserted {db' : Db} {u : UserRow}
      (hins : db.insertUser P r.now r.username (P.norm r.email) r.passwordHash = .ok (db', u)) :
      Move P r db usernameFree db' (refreshing u.id)
  | refreshed {id : ℤ} : Move P r db (refreshing id) db (done (UserRepository.refresh db id))

/-- **A statement does one of these things.** -/
theorem move_of_next {r : Registration} {db db' : Db} {p p' : Registering}
    (hnext : p.next P r db = some (db', p')) : Move P r db p db' p' := by
  cases p with
  | start =>
    obtain ⟨rfl, rfl⟩ := Prod.mk.inj (Option.some.inj hnext)
    split_ifs with hfound
    · exact .emailTaken (Option.isSome_iff_ne_none.mp hfound)
    · exact .emailFree (Option.not_isSome_iff_eq_none.mp hfound)
  | emailFree =>
    obtain ⟨rfl, rfl⟩ := Prod.mk.inj (Option.some.inj hnext)
    split_ifs with hfound
    · exact .usernameTaken (Option.isSome_iff_ne_none.mp hfound)
    · exact .usernameFree (Option.not_isSome_iff_eq_none.mp hfound)
  | usernameFree =>
    rw [next] at hnext
    rcases hins : db.insertUser P r.now r.username (P.norm r.email) r.passwordHash with x | ⟨db₁, u⟩
    · rw [hins] at hnext
      cases hnext
      exact .refused hins
    · rw [hins] at hnext
      cases hnext
      exact .inserted hins
  | refreshing id =>
    cases hnext
    exact .refreshed
  | done result => cases hnext

end Registering

section

variable {ι : Type*}

/-- Registrations interleaved, one statement at a time. -/
def registrations (P : Platform) (req : ι → Registration) : Interleaving ι Db Registering where
  move i c db' p' := (c.thread i).next P (req i) c.shared = some (db', p')

/-- Where a run starts. -/
def Registering.initial (db : Db) : Conf ι Db Registering := ⟨db, fun _ => .start⟩

/-- The account a request asked for. -/
def Registration.Creates (P : Platform) (r : Registration) (u : UserRow) : Prop :=
  u.username = r.username ∧ u.email = P.norm r.email

/-- **Registration is safe**: no two accounts share a name or a lower-cased address, a request that
is done has created its account or was told by a 409 that it could not, and no two have created one
account. -/
def RegistersSafely [DecidableEq ι] (P : Platform) (M : Interleaving ι Db Registering)
    (req : ι → Registration) (db : Db) : Prop :=
  ∀ c, M.Run (Registering.initial db) c →
    (∀ u ∈ c.shared.users.rows, ∀ v ∈ c.shared.users.rows,
      P.lower u.email = P.lower v.email ∨ u.username = v.username → u = v) ∧
    (∀ i result, c.thread i = .done result →
      (∃ u ∈ c.shared.users.rows, result = .ok u ∧ (req i).Creates P u) ∨
        result = .error (.app AuthService.emailTaken) ∨
        result = .error (.app AuthService.usernameTaken)) ∧
    ∀ i j u, c.thread i = .done (.ok u) → c.thread j = .done (.ok u) → i = j

/-- A move that brings in no address and no name that somebody else has looked up and not inserted
yet. -/
def Registering.NotOvertaking (P : Platform) (req : ι → Registration) (i : ι)
    (c : Conf ι Db Registering) (db' : Db) : Prop :=
  ∀ j, j ≠ i →
    (c.thread j = .emailFree ∨ c.thread j = .usernameFree →
      P.norm (req j).email ∉ db'.users.rows.map UserRow.email) ∧
    (c.thread j = .usernameFree → (req j).username ∉ db'.users.rows.map UserRow.username)

/-! ## Accounts -/

/-- The constraints, and that addresses are stored normalized. -/
structure Accounts (P : Platform) (db : Db) : Prop where
  integrity : db.Integrity
  normalized : ∀ u ∈ db.users.rows, P.norm u.email = u.email

/-- No two of them share a name or a lower-cased address. -/
theorem Accounts.eq_of_lower {db : Db} (a : Accounts P db) {u v : UserRow} (hu : u ∈ db.users.rows)
    (hv : v ∈ db.users.rows) (h : P.lower u.email = P.lower v.email ∨ u.username = v.username) :
    u = v := by
  have hlower : ∀ w ∈ db.users.rows, P.lower w.email = w.email := by
    intro w hw
    rw [← a.normalized w hw, Platform.norm, P.lower_lower]
  rcases h with h | h
  · rw [hlower u hu, hlower v hv] at h
    exact List.inj_on_of_nodup_map a.integrity.email hu hv h
  · exact List.inj_on_of_nodup_map a.integrity.username hu hv h

variable {r : Registration} {db db' : Db} {p p' : Registering}

/-- **Every move keeps the accounts**, whatever the others have done. -/
theorem Accounts.next (a : Accounts P db) (hnext : p.next P r db = some (db', p')) :
    Accounts P db' ∧ db.users.rows ⊆ db'.users.rows := by
  cases Registering.move_of_next hnext with
  | inserted hins =>
    obtain ⟨I, rfl, hrows⟩ := Db.insertUser_spec a.integrity hins
    refine ⟨⟨I, fun u hu => ?_⟩, by simp [hrows]⟩
    rw [hrows, List.mem_append, List.mem_singleton] at hu
    rcases hu with hu | rfl
    · exact a.normalized u hu
    · exact P.norm_norm r.email
  | _ => exact ⟨a, List.Subset.refl _⟩

/-! ## One registration -/

/-- **What a registration asserts** on its way to an account or a 409. -/
def Undisputed (P : Platform) (r : Registration) (db : Db) : Registering → Prop
  | .start => True
  | .emailFree => P.norm r.email ∉ db.users.rows.map UserRow.email
  | .usernameFree => P.norm r.email ∉ db.users.rows.map UserRow.email ∧
      r.username ∉ db.users.rows.map UserRow.username
  | .refreshing id => ∃ u ∈ db.users.rows, u.id = id ∧ r.Creates P u
  | .done result => (∃ u ∈ db.users.rows, result = .ok u ∧ r.Creates P u) ∨
      result = .error (.app AuthService.emailTaken) ∨
      result = .error (.app AuthService.usernameTaken)

/-- Its own moves. -/
theorem Undisputed.next (a : Accounts P db) (h : Undisputed P r db p)
    (hnext : p.next P r db = some (db', p')) : Undisputed P r db' p' := by
  cases Registering.move_of_next hnext with
  | emailTaken => exact Or.inr (Or.inl rfl)
  | emailFree hfree =>
    rw [UserRepository.getByEmail_eq_none a.normalized, P.norm_norm] at hfree
    exact hfree
  | usernameTaken => exact Or.inr (Or.inr rfl)
  | usernameFree hfree => exact ⟨h, UserRepository.getByUsername_eq_none.mp hfree⟩
  | refused hins =>
    obtain ⟨db₁, hok⟩ := Db.insertUser_ok P r.now r.passwordHash h.2 h.1
    cases hins.symm.trans hok
  | inserted hins =>
    obtain ⟨-, rfl, hrows⟩ := Db.insertUser_spec a.integrity hins
    exact ⟨_, by simp [hrows], rfl, rfl, rfl⟩
  | refreshed =>
    obtain ⟨u, hu, rfl, hcreates⟩ := h
    rw [UserRepository.refresh, Table.get?_key hu]
    exact Or.inl ⟨u, hu, rfl, hcreates⟩

/-- The account a registration has added. -/
def Registering.added : Registering → Option ℤ
  | .refreshing id => some id
  | .done (.ok u) => some u.id
  | _ => none

/-- It is in the table. -/
theorem Undisputed.mem_of_added (h : Undisputed P r db p) {id : ℤ} (hid : p.added = some id) :
    ∃ u ∈ db.users.rows, u.id = id := by
  cases p with
  | refreshing id' =>
    obtain rfl := Option.some.inj hid
    exact h.imp fun u hu => ⟨hu.1, hu.2.1⟩
  | done result =>
    rcases h with ⟨u, hu, rfl, -⟩ | rfl | rfl
    · exact ⟨u, hu, Option.some.inj hid⟩
    · cases hid
    · cases hid
  | _ => cases hid

/-- A registration adds an account under a new number, or has added the one it had. -/
theorem Undisputed.added_next (a : Accounts P db) (h : Undisputed P r db p)
    (hnext : p.next P r db = some (db', p')) {id : ℤ} (hid : p'.added = some id) :
    p.added = some id ∨ ∀ u ∈ db.users.rows, u.id ≠ id := by
  cases Registering.move_of_next hnext with
  | inserted hins =>
    obtain ⟨-, -, hrows⟩ := Db.insertUser_spec a.integrity hins
    obtain rfl := Option.some.inj hid
    have hnd := db'.users.nodup
    rw [hrows, List.map_append, List.nodup_append] at hnd
    exact Or.inr fun u hu => hnd.2.2 u.id (List.mem_map_of_mem hu) _ List.mem_cons_self
  | refreshed =>
    obtain ⟨u, hu, rfl, -⟩ := h
    rw [UserRepository.refresh, Table.get?_key hu] at hid
    exact Or.inl hid
  | _ => cases hid

/-- The others' moves. -/
theorem Undisputed.others (h : Undisputed P r db p) (hrows : db.users.rows ⊆ db'.users.rows)
    (hemail : p = .emailFree ∨ p = .usernameFree →
      P.norm r.email ∉ db'.users.rows.map UserRow.email)
    (hname : p = .usernameFree → r.username ∉ db'.users.rows.map UserRow.username) :
    Undisputed P r db' p := by
  cases p with
  | start => trivial
  | emailFree => exact hemail (Or.inl rfl)
  | usernameFree => exact ⟨hemail (Or.inr rfl), hname rfl⟩
  | refreshing id => exact h.imp fun u => And.imp_left fun hu => hrows hu
  | done result => exact h.imp_left fun hu => hu.imp fun u => And.imp_left fun hu => hrows hu

/-! ## Runs -/

variable [DecidableEq ι] {req : ι → Registration} {c c' : Conf ι Db Registering}

/-- **The indexes keep the accounts apart, on every run.** -/
theorem Accounts.run (hrun : (registrations P req).Run c c') (a : Accounts P c.shared) :
    Accounts P c'.shared :=
  hrun.invariant (I := fun c => Accounts P c.shared) (fun _ _ _ a hs => (a.next hs.move_self).1) a

/-- Everything a run of registrations keeps. -/
structure RegisteringAll (P : Platform) (req : ι → Registration) (c : Conf ι Db Registering) :
    Prop where
  accounts : Accounts P c.shared
  undisputed : ∀ i, Undisputed P (req i) c.shared (c.thread i)
  one : ∀ i j id, (c.thread i).added = some id → (c.thread j).added = some id → i = j

/-- What the mover adds, nobody else has added. -/
theorem RegisteringAll.added_ne (s : RegisteringAll P req c) {i j : ι}
    (hm : (registrations P req).StepBy i c c') (hj : j ≠ i) {id : ℤ}
    (hi : (c'.thread i).added = some id) : (c'.thread j).added ≠ some id := by
  intro hj'
  rw [hm.thread_ne hj] at hj'
  rcases (s.undisputed i).added_next s.accounts hm.move_self hi with hold | hnew
  · exact hj (s.one j i id hj' hold)
  · obtain ⟨u, hu, hid⟩ := (s.undisputed j).mem_of_added hj'
    exact hnew u hu hid

/-- **A move that does not overtake keeps it.** -/
theorem RegisteringAll.step (s : RegisteringAll P req c) {i : ι}
    (hstep : ((registrations P req).restrict (Registering.NotOvertaking P req)).StepBy i c c') :
    RegisteringAll P req c' := by
  obtain ⟨hm, hfree⟩ := Interleaving.restrict_stepBy.mp hstep
  obtain ⟨ha, hrows⟩ := s.accounts.next hm.move_self
  refine ⟨ha, hm.forall_thread ((s.undisputed i).next s.accounts hm.move_self) fun j hj => ?_,
    fun j k id hj hk => ?_⟩
  · exact (s.undisputed j).others hrows (hfree j hj).1 (hfree j hj).2
  · by_cases hji : j = i
    · subst hji
      by_contra hjk
      exact s.added_ne hm (Ne.symm hjk) hj hk
    · by_cases hki : k = i
      · subst hki
        exact absurd hj (s.added_ne hm hji hk)
      · rw [hm.thread_ne hji] at hj
        rw [hm.thread_ne hki] at hk
        exact s.one j k id hj hk

/-- **On runs in which no commit brings in an address or a name that another request has looked up
and not inserted yet, registration is safe.** -/
theorem registersSafely (a : Accounts P db) :
    RegistersSafely P ((registrations P req).restrict (Registering.NotOvertaking P req)) req
      db := by
  intro c hrun
  have hinit : RegisteringAll P req (Registering.initial db) :=
    ⟨a, fun _ => trivial, fun _ _ _ hi => by cases hi⟩
  have s := hrun.invariant (fun _ _ _ s hs => s.step hs) hinit
  refine ⟨fun u hu v hv => s.accounts.eq_of_lower hu hv, fun i result hdone => ?_,
    fun i j u hi hj => s.one i j u.id (by rw [hi]; rfl) (by rw [hj]; rfl)⟩
  have hi := s.undisputed i
  rwa [hdone] at hi

end

/-! ## Alone -/

/-- The statements of a registration, one after the other, are `register`. -/
theorem Registering.register_alone (r : Registration) (db : Db) : ∃ db' result,
    Relation.ReflTransGen (fun a b : Db × Registering => a.2.next P r a.1 = some b) (db, start)
      (db', done result) ∧
    AuthService.register P r.now db r.username r.email r.passwordHash
      = result.map (Prod.mk db') := by
  simp only [AuthService.register]
  by_cases hemail : (UserRepository.getByEmail P db (P.norm r.email)).isSome = true
  · refine ⟨db, _, .single (by rw [next, if_pos hemail]), ?_⟩
    rw [if_pos hemail]
    rfl
  have hfree : start.next P r db = some (db, emailFree) := by rw [next, if_neg hemail]
  rw [if_neg hemail]
  by_cases hname : (UserRepository.getByUsername db r.username).isSome = true
  · refine ⟨db, _, .head hfree (.single (by rw [next, if_pos hname])), ?_⟩
    rw [if_pos hname]
    rfl
  have hfree' : emailFree.next P r db = some (db, usernameFree) := by rw [next, if_neg hname]
  rw [if_neg hname, UserRepository.add]
  rcases hins : db.insertUser P r.now r.username (P.norm r.email) r.passwordHash with x | ⟨db', u⟩
  · have hnext : usernameFree.next P r db = some (db, done (.error x)) := by rw [next, hins]
    exact ⟨db, _, .head hfree (.head hfree' (.single hnext)), rfl⟩
  · have hnext : usernameFree.next P r db = some (db', refreshing u.id) := by rw [next, hins]
    refine ⟨db', _, .head hfree (.head hfree' (.head hnext (.single rfl))), ?_⟩
    simp only [bind, Except.bind]
    rcases UserRepository.refresh db' u.id with x | u' <;> rfl

/-- **A registration that has the machine to itself ends as `register` does.** -/
theorem Registering.run_alone {ι : Type*} [DecidableEq ι] (req : ι → Registration)
    {c : Conf ι Db Registering} {i : ι} (hstart : c.thread i = .start) : ∃ c' result,
    ((registrations P req).restrict fun j _ _ => j = i).Run c c' ∧ c'.thread i = .done result ∧
      AuthService.register P (req i).now c.shared (req i).username (req i).email
        (req i).passwordHash = result.map (Prod.mk c'.shared) := by
  obtain ⟨db', result, hrun, heq⟩ := register_alone (P := P) (req i) c.shared
  rw [← hstart] at hrun
  obtain ⟨c', hrun', hb, -⟩ := Interleaving.exists_run_alone (M := registrations P req) id
    (fun d b _ hnext => ⟨b.1, hnext, rfl⟩) hrun
  obtain ⟨rfl, hdone⟩ := Prod.mk.inj hb
  exact ⟨c', result, hrun', hdone, heq⟩

/-! ## A race -/

/-- Two people register one address. -/
def oneAddress : Fin 2 → Registration
  | 0 => ⟨"carol".toList, "Carol@example.com".toList, [], 0⟩
  | 1 => ⟨"caroline".toList, "carol@example.com ".toList, [], 0⟩

instance (i : Fin 2) (c : Conf (Fin 2) Db Registering) (db' : Db) :
    Decidable (Registering.NotOvertaking .sqlite oneAddress i c db') :=
  inferInstanceAs (Decidable (∀ j, j ≠ i → _ ∧ _))

/-- The accounts of Alice and Bob. -/
theorem accounts_twoAccounts : Accounts .sqlite Db.twoAccounts :=
  ⟨Db.integrity_twoAccounts, by decide +kernel⟩

/-- The move of a registration, computed. -/
def Registering.step (i : Fin 2) (c : Conf (Fin 2) Db Registering) : Option (Db × Registering) :=
  (c.thread i).next .sqlite (oneAddress i) c.shared

/-- One after the other, the second is told that the address is taken. -/
theorem registersSafely_oneAddress : ∃ c, (registrations .sqlite oneAddress).Run
    (Registering.initial Db.twoAccounts) c ∧
      c.thread 1 = .done (.error (.app AuthService.emailTaken)) ∧
      ∃ u ∈ c.shared.users.rows, c.thread 0 = .done (.ok u) ∧ (oneAddress 0).Creates .sqlite u := by
  obtain ⟨c₁, c₂, c₃, hrun, hstep, hrun', hc⟩ := Interleaving.exists_run_around
    (M := registrations .sqlite oneAddress) Registering.step
    (Registering.NotOvertaking .sqlite oneAddress) (fun _ _ _ _ h => h)
    (Registering.initial Db.twoAccounts) [0, 0] 0 [1, 0] (fun _ _ c => decide
      (c.thread 1 = .done (.error (.app AuthService.emailTaken)) ∧
        ∃ u ∈ c.shared.users.rows, c.thread 0 = .done (.ok u))) (by decide +kernel)
  obtain ⟨htaken, u, -, hok⟩ := of_decide_eq_true hc
  have hall := hrun.trans (hstep.run.trans hrun')
  obtain ⟨-, hdone, -⟩ := registersSafely accounts_twoAccounts c₃ hall
  refine ⟨c₃, Interleaving.run_of_restrict hall, htaken, ?_⟩
  rcases hdone 0 _ hok with ⟨v, hv, heq, hcreates⟩ | heq | heq
  · exact ⟨v, hv, hok.trans (congrArg _ heq), hcreates⟩
  · cases heq
  · cases heq

/-- **A commit between another request's lookup and insert makes that request fail.** -/
theorem not_registersSafely :
    ¬ RegistersSafely .sqlite (registrations .sqlite oneAddress) oneAddress Db.twoAccounts := by
  obtain ⟨c₁, c₂, c₃, hrun, hstep, hrun', hc⟩ := Interleaving.exists_run_around
    (M := registrations .sqlite oneAddress) Registering.step (fun _ _ _ => True)
    (fun _ _ _ _ h => h) (Registering.initial Db.twoAccounts) [0, 0, 1, 1] 0 [1]
    (fun _ _ c => decide (c.thread 1 = .done (.error .integrityError))) (by decide +kernel)
  intro h
  have hall := hrun.trans (hstep.run.trans hrun')
  obtain ⟨-, hdone, -⟩ := h c₃ (Interleaving.run_of_restrict hall)
  rcases hdone 1 _ (of_decide_eq_true hc) with ⟨v, -, heq, -⟩ | heq | heq
  · cases heq
  · cases heq
  · cases heq
