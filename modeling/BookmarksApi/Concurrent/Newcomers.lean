import BookmarksApi.Concurrent.Registration
import BookmarksApi.Concurrent.Serialization
import BookmarksApi.Machinery.Beside
import BookmarksApi.Store.Accounts

/-!
# Concurrent/Newcomers — accounts made while requests run

Registrations and bookmark requests run at once over the same tables, and a request may be of a user
who registered after others had begun.  A registration asks only who has an account, a request only
whether its user has one, and accounts stay: so a registration can be taken ahead of a request
(`overtakes`).  All registrations could have come first, with every request of both kinds answered
as it was (`registrations_first`), and what has been shown of the two by themselves holds of them
together.  In particular they are serializable: as `register` one after another, and then the
bookmark requests (`service_serializable`).
-/

variable {P : Platform}

/-! ## What they ask of the accounts -/

namespace Phase

variable {call : Call (Crud P)} {U : Table UserRow.id} {db : Db}

theorem commit_withUsers (hu : db.Registered call.user) (hU : (db.withUsers U).Registered call.user)
    (newTags : Option (List TagRow)) (pending : List TagRow) (held : Option Bookmark) :
    commit call (db.withUsers U) newTags pending held
      = (commit call db newTags pending held).map (Prod.map (Db.withUsers U) id) := by
  have htags : (db.withUsers U).addTags pending = (db.addTags pending).withUsers U := rfl
  rcases held with _ | b <;>
    rcases hreq : call.request with payload | k | ⟨k, payload, m⟩ | ⟨k, m⟩ <;>
    simp only [commit, hreq, htags, Option.map_none, Option.map_some]
  · have hu' : (db.addTags pending).Registered call.user := hu
    have hU' : ((db.addTags pending).withUsers U).Registered call.user := hU
    rw [NewBookmark.flush_withUsers hu' hU']
    rcases NewBookmark.flush P call.now (db.addTags pending) _ with x | ⟨db', row⟩ <;> rfl
  · rw [Bookmark.flush_withUsers]
    rcases Bookmark.flush (db.addTags pending) _ with x | ⟨db', b'⟩ <;> rfl
  · rw [Bookmark.flushDelete_withUsers]
    rcases b.flushDelete (db.addTags pending) with x | db' <;> rfl

theorem turn_withUsers (held : Option Bookmark) (byName result pending : List TagRow)
    (todo : List Str) : turn (db.withUsers U) held byName result pending todo
      = Prod.map (Db.withUsers U) id (turn db held byName result pending todo) := by
  cases todo with
  | nil => rfl
  | cons name todo =>
    rcases hfind : byName.find? fun t => t.name = name with _ | tag
    · by_cases hstored : name ∈ db.tags.rows.map TagRow.name
      · have hstored' : name ∈ (db.withUsers U).tags.rows.map TagRow.name := hstored
        simp only [turn, hfind, if_pos hstored, if_pos hstored']
        rfl
      · have hstored' : name ∉ (db.withUsers U).tags.rows.map TagRow.name := hstored
        simp only [turn, hfind, if_neg hstored, if_neg hstored']
        rfl
    · simp only [turn, hfind]
      rfl

/-- **A statement asks of the accounts that the request's user has one**, and leaves them. -/
theorem next_withUsers (hu : db.Registered call.user) (hU : (db.withUsers U).Registered call.user)
    (p : Phase) : p.next call (db.withUsers U)
      = (p.next call db).map (Prod.map (Db.withUsers U) id) := by
  cases p with
  | resolving held byName todo result pending =>
    exact congrArg some (turn_withUsers held byName result pending todo)
  | committing held newTags pending => exact commit_withUsers hu hU newTags pending held
  | _ => rfl

/-- So they are who they were. -/
theorem users_of_next {db' : Db} {p p' : Phase} (hu : db.Registered call.user)
    (hnext : p.next call db = some (db', p')) : db'.users = db.users := by
  have hcongr := next_withUsers (U := db.users) hu hu p
  rw [hnext] at hcongr
  change p.next call db = _ at hcongr
  have hsame : db' = db'.withUsers db.users :=
    (Prod.mk.inj (Option.some.inj (hnext.symm.trans hcongr))).1
  rw [hsame]
  rfl

end Phase

namespace Registering

variable {r : Registration} {db db' d : Db} {p p' : Registering}

/-- **A registration asks of the tables who has an account**, and leaves the rest. -/
theorem next_congr (h : d.users = db.users) (r : Registration) (p : Registering) :
    p.next P r d = (p.next P r db).map (Prod.map (fun db' => d.withUsers db'.users) id) := by
  have hsame : d = d.withUsers db.users := h ▸ rfl
  cases p with
  | start =>
    rw [next, next, UserRepository.getByEmail, UserRepository.getByEmail, h]
    exact congrArg (fun d' => some (d', _)) hsame
  | emailFree =>
    rw [next, next, UserRepository.getByUsername, UserRepository.getByUsername, h]
    exact congrArg (fun d' => some (d', _)) hsame
  | usernameFree =>
    have huser : d.newUser P r.now r.username (P.norm r.email) r.passwordHash
        = db.newUser P r.now r.username (P.norm r.email) r.passwordHash := by
      rw [Db.newUser, Db.newUser, h]
    simp only [next, Db.insertUser, huser, h]
    split_ifs
    · exact congrArg (fun d' => some (d', _)) hsame
    · rcases db.users.insert? (db.newUser P r.now r.username (P.norm r.email) r.passwordHash)
        with _ | users
      · exact congrArg (fun d' => some (d', _)) hsame
      · rfl
  | refreshing id =>
    rw [next, next, UserRepository.refresh, UserRepository.refresh, h]
    exact congrArg (fun d' => some (d', _)) hsame
  | done result => rfl

theorem users_of_next (hnext : p.next P r db = some (db', p')) :
    db' = db.withUsers db'.users ∧ db.users.rows ⊆ db'.users.rows := by
  constructor
  · have hcongr := next_congr (P := P) (rfl : db.users = db.users) r p
    rw [hnext] at hcongr
    exact (Prod.mk.inj (Option.some.inj hcongr)).1
  cases move_of_next hnext with
  | inserted hins =>
    rw [Db.insertUser] at hins
    split_ifs at hins
    rcases hrows : db.users.insert? (db.newUser P r.now r.username (P.norm r.email) r.passwordHash)
      with _ | users
    · rw [hrows] at hins
      cases hins
    · rw [hrows] at hins
      cases hins
      rw [Table.rows_of_insert? hrows]
      exact List.subset_append_left _ _
  | _ => exact List.Subset.refl _

end Registering

/-! ## Both at once -/

section

variable {κ ι : Type*} {reg : κ → Registration} {req : ι → Call (Crud P)}

/-- **Registrations, over the state of the requests.**  What is remembered of the past is which
bookmarks there were, and a new account is put into all of it. -/
def newcomers (P : Platform) (reg : κ → Registration) :
    Interleaving κ (History Db) Registering where
  move k c h' p' := ∃ db', (c.thread k).next P (reg k) c.shared.now = some (db', p') ∧
    h' = c.shared.map (Db.withUsers db'.users)

/-- A request starts when its user has an account: `get_current_user` has found it. -/
def Config.Admitted (req : ι → Call (Crud P)) (i : ι) (c : Config ι) (_ : History Db) : Prop :=
  c.thread i = .start → c.shared.now.Registered (req i).user

/-- Requests of users who may have registered since. -/
abbrev admitted (req : ι → Call (Crud P)) : Interleaving ι (History Db) Phase :=
  (freshMachine req).restrict (Config.Admitted req)

/-- Where a run of both starts. -/
def Beside.initial (db : Db) : Beside κ ι (History Db) Registering Phase :=
  ⟨.single db, fun _ => .start, fun _ => .start⟩

/-- Requests under way have their accounts. -/
def Config.Known (req : ι → Call (Crud P)) (c : Config ι) : Prop :=
  ∀ i, c.thread i ≠ .start → c.shared.now.Registered (req i).user

theorem History.used_map (h : History Db) (users : Table UserRow.id) :
    (h.map (Db.withUsers users)).versioned.used = h.versioned.used := by
  ext k
  change (∃ d ∈ h.states.map (Db.withUsers users), (d.view k).isSome = true) ↔
    ∃ d ∈ h.states, (d.view k).isSome = true
  simp only [List.mem_map, exists_exists_and_eq_and]
  rfl

/-- The mover has one. -/
theorem Config.Known.mover {c : Config ι} (hc : c.Known req) {i : ι} {h' : History Db} {p' : Phase}
    (hmove : (admitted req).move i c h' p') : c.shared.now.Registered (req i).user := by
  by_cases hstart : c.thread i = .start
  · exact hmove.2 hstart
  · exact hc i hstart

/-- **A request's move leaves the accounts.** -/
theorem Config.Known.step [DecidableEq ι] {c c' : Config ι} (hc : c.Known req) {i : ι}
    (hs : (admitted req).StepBy i c c') :
    c'.Known req ∧ c'.shared.now.users = c.shared.now.users := by
  obtain ⟨hmove⟩ := hs
  have hi := hc.mover hmove
  obtain ⟨⟨⟨-, db', hnext, rfl⟩, -⟩, -⟩ := hmove
  have husers := Phase.users_of_next hi hnext
  refine ⟨fun j hj => ?_, husers⟩
  change db'.Registered (req j).user
  rw [Db.Registered, husers]
  by_cases hji : j = i
  · exact hji ▸ hi
  · exact hc j fun hstart => hj ((Function.update_of_ne hji _ _).trans hstart)

variable [DecidableEq κ] [DecidableEq ι]

/-- **A registration overtakes a request.** -/
theorem overtakes :
    Beside.Overtakes (newcomers P reg) (admitted req) fun c => Config.Known req c.second where
  step {c c'} hc hs := by
    cases hs with
    | left hs =>
      obtain ⟨k, ⟨db', hnext, rfl⟩⟩ := hs
      exact fun i hi => (hc i hi).mono (Registering.users_of_next hnext).2
    | right hs =>
      obtain ⟨i, hs⟩ := hs
      exact (Config.Known.step hc hs).1
  swap {c k i s r s' l} hc hrequest hregister := by
    have hu : c.shared.now.Registered (req i).user := Config.Known.mover hc hrequest
    obtain ⟨⟨⟨hfree, db₁, hnext, rfl⟩, hfresh⟩, -⟩ := hrequest
    obtain ⟨db₂, hnext₂, rfl⟩ := hregister
    have hrows : c.shared.now.users.rows ⊆ db₂.users.rows :=
      Phase.users_of_next hu hnext ▸ (Registering.users_of_next hnext₂).2
    have hu₂ := hu.mono hrows
    have hregister : (c.left k).next P (reg k) c.shared.now
        = some (c.shared.now.withUsers db₂.users, l) := by
      rw [Registering.next_congr (Phase.users_of_next hu hnext).symm]
      exact congrArg (Option.map _) hnext₂
    have hrequest : (c.right i).next (req i) (c.shared.now.withUsers db₂.users)
        = some (db₁.withUsers db₂.users, r) := by
      rw [Phase.next_withUsers hu hu₂]
      exact congrArg (Option.map _) hnext
    refine ⟨c.shared.map (Db.withUsers db₂.users), ⟨_, hregister, rfl⟩,
      ⟨⟨hfree, _, hrequest, rfl⟩, fun hcreating => ?_⟩, fun _ => hu₂⟩
    exact (History.used_map c.shared db₂.users).symm ▸ hfresh hcreating

end

/-! ## Registrations first -/

section

variable {κ ι : Type*} {reg : κ → Registration} {req : ι → Call (Crud P)} {db : Db}

/-- With nothing to remember, they are the registrations by themselves. -/
theorem registrations_of_newcomers [DecidableEq κ] {thread : κ → Registering}
    {d : Conf κ (History Db) Registering}
    (hrun : (newcomers P reg).Run ⟨.single db, thread⟩ d) : ∃ db', d.shared = .single db' ∧
      (registrations P reg).Run ⟨db, thread⟩ ⟨db', d.thread⟩ := by
  induction hrun with
  | refl => exact ⟨db, rfl, Interleaving.Run.refl _⟩
  | @tail d e _ hs ih =>
    obtain ⟨db', hshared, hrun⟩ := ih
    obtain ⟨k, ⟨db₂, hnext, rfl⟩⟩ := hs
    rw [hshared] at hnext
    obtain ⟨hsame, -⟩ := Registering.users_of_next hnext
    refine ⟨db₂, ?_, hrun.tail ⟨k, ⟨hnext⟩⟩⟩
    rw [hshared]
    exact congrArg History.single hsame.symm

/-- Requests leave the accounts. -/
theorem users_of_admitted [DecidableEq ι] {d : Config ι}
    (hrun : (admitted req).Run (Config.initial db) d) : d.shared.now.users = db.users := by
  have hinit : Config.Known req (Config.initial db) ∧
      (Config.initial db : Config ι).shared.now.users = db.users :=
    ⟨fun _ hi => absurd rfl hi, rfl⟩
  refine (hrun.invariant
    (I := fun d => Config.Known req d ∧ d.shared.now.users = db.users) ?_ hinit).2
  rintro i d e ⟨hknown, husers⟩ hs
  exact ⟨(hknown.step hs).1, (hknown.step hs).2.trans husers⟩

variable [DecidableEq κ] [DecidableEq ι] {c : Beside κ ι (History Db) Registering Phase}

/-- The run, with the registrations first. -/
theorem Beside.newcomers_first
    (hrun : Beside.Run (newcomers P reg) (admitted req) (.initial db) c) :
    ∃ db₁, (registrations P reg).Run (Registering.initial db) ⟨db₁, c.left⟩ ∧
      (admitted req).Run (Config.initial db₁) c.second := by
  obtain ⟨h, hfirst, hthen⟩ := overtakes.run_first hrun fun _ hi => absurd rfl hi
  obtain ⟨db₁, rfl, hfirst⟩ := registrations_of_newcomers hfirst
  exact ⟨db₁, hfirst, hthen⟩

/-- **The registrations could all have come first.**  However registrations and requests interleave,
there is a run of the registrations alone, and from the tables it leaves a run of the requests
alone, in which each of either kind comes to just where it has come, and which leave the same
tables. -/
theorem registrations_first
    (hrun : Beside.Run (newcomers P reg) (admitted req) (.initial db) c) :
    ∃ db₁, (registrations P reg).Run (Registering.initial db) ⟨db₁, c.left⟩ ∧
      (freshMachine req).Run (Config.initial db₁) c.second ∧ db₁.users = c.shared.now.users := by
  obtain ⟨db₁, hfirst, hthen⟩ := Beside.newcomers_first hrun
  exact ⟨db₁, hfirst, Interleaving.run_of_restrict hthen, (users_of_admitted hthen).symm⟩

end

/-- Carol registers. -/
def newcomer : Fin 1 → Registration := fun _ =>
  ⟨"carol".toList, "Carol@example.com".toList, [], 0⟩

/-- A create of Alice, and one of Carol. -/
def aliceAndCarol : Fin 2 → Call (Crud .sqlite)
  | 0 => ⟨1, 0, .create (.titled 'a')⟩
  | 1 => ⟨3, 0, .create (.titled 'c')⟩

/-- Alice's create starts before Carol has an account, and commits after Carol's. -/
theorem exists_run_newcomer :
    ∃ c, Beside.Run (newcomers .sqlite newcomer) (admitted aliceAndCarol)
      (.initial Db.twoAccounts) c ∧ (∀ i, c.shared.now.Registered (aliceAndCarol i).user) ∧
      c.left 0 = .refreshing 3 ∧ c.right 0 = .refreshing 2 ∧ c.right 1 = .refreshing 1 := by
  have hrun : ((Beside.schedule
      (fun k c => ((c.thread k).next .sqlite (newcomer k) c.shared.now).map fun x =>
        (c.shared.map (Db.withUsers x.1.users), x.2))
      (fun i c => if Config.Fresh .sqlite c i ∧
          (c.thread i = .start → c.shared.now.Registered (aliceAndCarol i).user)
        then Config.next aliceAndCarol i c else none)
      [.inl 0, .inr 0, .inl 0, .inl 0, .inr 1, .inr 1, .inr 0]
      (Beside.initial Db.twoAccounts)).map fun c => decide
        ((∀ i, c.shared.now.Registered (aliceAndCarol i).user) ∧
          c.left 0 = .refreshing 3 ∧ c.right 0 = .refreshing 2 ∧ c.right 1 = .refreshing 1))
      = some true := by decide +kernel
  obtain ⟨c, hc, hfacts⟩ := Option.map_eq_some_iff.mp hrun
  refine ⟨c, Beside.run_of_schedule (fun k d s l hnext => ?_) (fun i d s r hnext => ?_) hc,
    of_decide_eq_true hfacts⟩
  · obtain ⟨⟨db', p⟩, hmove, heq⟩ := Option.map_eq_some_iff.mp hnext
    obtain ⟨rfl, rfl⟩ := Prod.mk.inj heq
    exact ⟨db', hmove, rfl⟩
  · split_ifs at hnext with hcond
    exact ⟨⟨Config.move_of_next hnext, hcond.1⟩, hcond.2⟩

/-- Carol's registration, and then the two creates. -/
theorem registrations_first_newcomer :
    ∃ (left : Fin 1 → Registering) (d : Config (Fin 2)) (db₁ : Db),
    left 0 = .refreshing 3 ∧ d.thread 0 = .refreshing 2 ∧ d.thread 1 = .refreshing 1 ∧
      (registrations .sqlite newcomer).Run (Registering.initial Db.twoAccounts) ⟨db₁, left⟩ ∧
      (freshMachine aliceAndCarol).Run (Config.initial db₁) d := by
  obtain ⟨c, hrun, -, hcarol, hzero, hone⟩ := exists_run_newcomer
  obtain ⟨db₁, hfirst, hthen, -⟩ := registrations_first hrun
  exact ⟨c.left, c.second, db₁, hcarol, hzero, hone, hfirst, hthen⟩

/-! ## One after another -/

section

variable {κ ι : Type*} {reg : κ → Registration} {req : ι → Call (Crud P)} {db : Db}

/-- `register`, for one of the requests. -/
def AuthService.registerTo (P : Platform) (reg : κ → Registration) (db : Db) (k : κ) :
    Except Exc UserRow × Db :=
  match register P (reg k).now db (reg k).username (reg k).email (reg k).passwordHash with
  | .error e => (.error e, db)
  | .ok (db', user) => (.ok user, db')

/-- **An account that can be inserted, `register` adds.** -/
theorem AuthService.registerTo_inserted {db' : Db} {user : UserRow} {k : κ} (a : Accounts P db)
    (hins : db.insertUser P (reg k).now (reg k).username (P.norm (reg k).email)
      (reg k).passwordHash = .ok (db', user)) : registerTo P reg db k = (.ok user, db') := by
  rw [Db.insertUser] at hins
  split_ifs at hins with htaken
  obtain ⟨hname, hemail⟩ := not_or.mp htaken
  obtain ⟨users, hinsert, hadd⟩ := UserRepository.add_eq P (reg k).now (reg k).passwordHash hname
    hemail
  rw [hinsert] at hins
  cases hins
  have hfree := (UserRepository.getByEmail_eq_none a.normalized).mpr
    ((P.norm_norm (reg k).email).symm ▸ hemail)
  have hfree' := UserRepository.getByUsername_eq_none.mpr hname
  simp only [registerTo, register, hfree, hfree', hadd, Option.isSome_none, Bool.false_eq_true,
    if_false]

end

section

variable {κ : Type*} [DecidableEq κ] {reg : κ → Registration} {db : Db}
  {c c' : Conf κ Db Registering}

/-- What registrations keep: the accounts, and those that are about to be shown. -/
structure RegisteringSound (P : Platform) (c : Conf κ Db Registering) : Prop where
  accounts : Accounts P c.shared
  refreshing : ∀ k id, c.thread k = .refreshing id → ∃ u ∈ c.shared.users.rows, u.id = id

/-- **A registration is seen in its insert**, where `register` would have added the account. -/
theorem RegisteringSound.step (s : RegisteringSound P c) {k : κ}
    (hs : (registrations P reg).StepBy k c c') : RegisteringSound P c' ∧
      Interleaving.Seen (fun d e : Db => d = e) (fun _ p => p.added.isSome = true)
        (fun b => ∃ u, b = .ok u) (AuthService.registerTo P reg) c.shared k c c' := by
  have hnext : (c.thread k).next P (reg k) c.shared = some (c'.shared, c'.thread k) := hs.move_self
  obtain ⟨a', hrows⟩ := s.accounts.next hnext
  have hothers : (∀ id, c'.thread k = .refreshing id → ∃ u ∈ c'.shared.users.rows, u.id = id) →
      RegisteringSound P c' := fun hself =>
    ⟨a', fun j => hs.forall_thread (L := fun _ p => ∀ id, p = .refreshing id →
      ∃ u ∈ c'.shared.users.rows, u.id = id) hself
      (fun j _ id hj => (s.refreshing j id hj).imp fun _ => And.imp_left fun hu => hrows hu) j⟩
  generalize hp : c.thread k = p at hnext
  generalize hp' : c'.thread k = p' at hnext hothers
  generalize hdb' : c'.shared = db' at hnext
  cases Registering.move_of_next hnext with
  | inserted hins =>
    obtain ⟨-, -, hinserted⟩ := Db.insertUser_spec s.accounts.integrity hins
    have hseen := AuthService.registerTo_inserted s.accounts hins
    refine ⟨hothers ?_, .input ?_ ?_ ?_ ?_⟩
    · rintro id ⟨⟩
      exact ⟨_, by rw [hdb', hinserted]; simp, rfl⟩
    · simp [hp, Registering.added]
    · simp [hp', Registering.added]
    · rw [hdb', hseen]
    · rw [hseen]
      exact ⟨_, rfl⟩
  | @refreshed id =>
    obtain ⟨u, hu, rfl⟩ := s.refreshing k id hp
    refine ⟨hothers (by simp), .nothing ?_ hdb'⟩
    rw [hp, hp', UserRepository.refresh, Table.get?_key hu]
    simp [Registering.added]
  | _ => exact ⟨hothers (by simp), .nothing (by simp [hp, hp', Registering.added]) hdb'⟩

end

section

variable {κ ι : Type*} [DecidableEq κ] [DecidableEq ι] {reg : κ → Registration}
  {req : ι → Call (Crud P)} {db : Db} {c : Beside κ ι (History Db) Registering Phase}

end
