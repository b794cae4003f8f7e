import BookmarksApi.Machinery.Knowledge
import BookmarksApi.Reachable.Sessions

/-!
# Reachable/Escalation — what one without the password can do to an account

Somebody who cannot log in to an account, and was never given a token that names it, sends the
service whatever else he likes: he registers, logs in elsewhere, and uses every token he is shown.
None of it reaches the account (`attack_changes_nothing`), since a token is shown only for the
account that the request opened.  And what the account has bookmarked does not show in any answer
(`attack_learns_nothing`).
-/

variable {P : Platform}

namespace AuthService

/-- **A registration sees the accounts**, and changes nothing else. -/
theorem register_congr {d₁ d₂ : Db} (now : ℤ) (username email passwordHash : Str)
    (h : d₁.users = d₂.users) :
    (register P now d₁ username email passwordHash).map (fun r => (r.1.users, r.2))
      = (register P now d₂ username email passwordHash).map fun r => (r.1.users, r.2) := by
  have hadd : ∀ address, (UserRepository.add P now d₁ username address passwordHash).map
      (fun r => (r.1.users, r.2)) = (UserRepository.add P now d₂ username address passwordHash).map
        fun r => (r.1.users, r.2) := by
    intro address
    simp only [UserRepository.add, Db.insertUser, Db.newUser, h]
    split_ifs
    · rfl
    · split
      · rfl
      · simp only [UserRepository.refresh, bind, Except.bind]
        split <;> rfl
  have hemail : UserRepository.getByEmail P d₁ = UserRepository.getByEmail P d₂ := by
    funext address
    rw [UserRepository.getByEmail, UserRepository.getByEmail, h]
  have hname : UserRepository.getByUsername d₁ = UserRepository.getByUsername d₂ := by
    funext name
    rw [UserRepository.getByUsername, UserRepository.getByUsername, h]
  simp only [register, hemail, hname]
  split
  · rfl
  · split
    · rfl
    · exact hadd _

end AuthService

/-- What an answer shows of accounts. -/
def ApiAnswer.sessions (answer : ApiAnswer) : List AuthResponse := answer.session.toList

namespace Api

variable (api : Api)

/-- A text that is read, at some moment, as a token for an account. -/
def Names (token : Str) (id : ℤ) : Prop :=
  ∃ now payload, api.tokens.decode now token = .ok payload ∧ Str.toInt? payload.sub = some id

/-- A request that does not need the account's password, nor any token for it but one that was
shown. -/
def May (victim : UserRow) (held : List AuthResponse) (call : ApiCall P) : Prop :=
  match call.request with
  | .register _ => True
  | .login payload => ¬ api.Opens P victim payload.email payload.password
  | .bookmarks authorization _ => ∀ token, httpBearer P authorization = some token →
      token ∈ held.map AuthResponse.token ∨ ¬ api.Names token victim.id

/-- A session of somebody else. -/
structure Foreign (victim : UserRow) (r : AuthResponse) : Prop where
  user : r.user.id ≠ victim.id
  token : ¬ api.Names r.token victim.id

/-- **What an attack leaves so**: the account is there with the bookmarks it had, and everything
shown belongs to others. -/
structure Untouched (P : Platform) (victim : UserRow) (db : Db) (held : List AuthResponse)
    (s : ApiState) : Prop where
  accounts : Accounts P s.db
  present : victim ∈ s.db.users.rows
  agree : AgreeFor victim.id db s.db
  held : ∀ r ∈ held, api.Foreign victim r

variable {api} {victim user : UserRow} {db : Db} {held : List AuthResponse} {s s₁ s₂ : ApiState}
  {call : ApiCall P}

/-- **A session names the account it was issued for**, and no other. -/
theorem Issues.foreign {r : AuthResponse} (h : api.Issues call user r)
    (hne : user.id ≠ victim.id) : api.Foreign victim r where
  user := by
    rw [h.shown]
    exact hne
  token := by
    rintro ⟨now, payload, hdecode, hsub⟩
    rw [api.tokens.sub_of_createAccessToken h.signed hdecode] at hsub
    exact hne (Str.eq_of_toInt?_ofInt hsub).symm

/-- An answer shows others' sessions when the one it shows is. -/
theorem foreign_append {answer : ApiAnswer} (hheld : ∀ r ∈ held, api.Foreign victim r)
    (hanswer : ∀ r, answer.session = some r → api.Foreign victim r) :
    ∀ r ∈ answer.sessions ++ held, api.Foreign victim r := by
  intro r hr
  rw [List.mem_append, ApiAnswer.sessions, Option.mem_toList] at hr
  exact hr.elim (hanswer r) (hheld r)

/-- A token that was shown may be presented. -/
theorem may_shown (hlower : P.lower "Bearer".toList = "bearer".toList) {r : AuthResponse}
    (hr : r ∈ held) {request : Request P}
    (hreq : call.request = .bookmarks (some ("Bearer ".toList ++ r.token)) request) :
    api.May victim held call := by
  rw [May, hreq]
  intro token htoken
  by_cases hempty : r.token = []
  · rw [hempty] at htoken
    cases htoken
  · have hcut := httpBearer_append (by decide) hlower (by decide) hempty
    obtain rfl := Option.some.inj (hcut.symm.trans htoken)
    exact Or.inl (List.mem_map_of_mem hr)

/-- **Whoever an attack is served as is somebody else.** -/
theorem May.served_ne (hmay : api.May victim held call) (hheld : ∀ r ∈ held, api.Foreign victim r)
    {authorization : Option Str} {request : Request P}
    (hreq : call.request = .bookmarks authorization request)
    (huser : Deps.getCurrentUser P api.tokens db call.now authorization = .ok user) :
    user.id ≠ victim.id := by
  intro hid
  obtain ⟨token, payload, hbearer, hdecode, hsubject, -, -⟩ := Deps.getCurrentUser_eq_ok.mp huser
  have hnames : api.Names token victim.id := ⟨call.now, payload, hdecode, hid ▸ hsubject⟩
  rw [May, hreq] at hmay
  rcases hmay token hbearer with hshown | hforeign
  · obtain ⟨r, hr, rfl⟩ := List.mem_map.mp hshown
    exact (hheld r hr).token hnames
  · exact hforeign hnames

/-- **A request of an attack**: whoever it serves or shows is somebody else. -/
theorem Untouched.respond (hmay : api.May victim held call) (h : api.Untouched P victim db held s) :
    api.Untouched P victim db ((api.respond s call).1.sessions ++ held) (api.respond s call).2 := by
  have heffect := api.effect h.accounts call
  obtain ⟨haccounts, hsub⟩ := api.respond_keeps h.accounts call
  have hpresent := hsub h.present
  generalize (api.respond s call).1 = answer at heffect ⊢
  generalize (api.respond s call).2 = s' at heffect haccounts hpresent ⊢
  cases heffect with
  | refused hanswer =>
    refine ⟨haccounts, hpresent, h.agree, foreign_append h.held fun r hr => ?_⟩
    rw [hanswer] at hr
    cases hr
  | registered hreq hadds haccounts' hemail hhash hanswer =>
    refine ⟨haccounts, hpresent, ?_, foreign_append h.held fun r hr =>
      (hanswer r hr).foreign (hadds.id victim h.present).symm⟩
    rw [AgreeFor, hadds.view]
    exact h.agree
  | @loggedIn payload user guard answer hreq huser hopens hanswer =>
    have hne : user.id ≠ victim.id := by
      intro hid
      obtain rfl := s.db.users.eq_of_key huser h.present hid
      rw [May, hreq] at hmay
      exact hmay hopens
    exact ⟨haccounts, hpresent, h.agree, foreign_append h.held fun r hr =>
      (hanswer r hr).foreign hne⟩
  | @served authorization request user hreq huser =>
    have hne := hmay.served_ne h.held hreq huser
    refine ⟨haccounts, hpresent, fun k => ?_, foreign_append h.held fun r hr => by cases hr⟩
    exact (h.agree k).trans (Routers.agreeFor_respond h.accounts.integrity hne.symm _ _ k)

/-- **An attack changes nothing of the account**, and is never shown a token that names it. -/
theorem attack_changes_nothing (a : Accounts P s.db) (hvictim : victim ∈ s.db.users.rows)
    {calls : List (ApiCall P)}
    (h : Informed api.respond ApiAnswer.sessions (api.May victim) [] s calls) :
    victim ∈ (finalState api.respond s calls).db.users.rows ∧
      AgreeFor victim.id s.db (finalState api.respond s calls).db ∧
      ∀ answer ∈ outputs api.respond s calls, ∀ r, answer.session = some r →
        r.user.id ≠ victim.id ∧ ¬ api.Names r.token victim.id := by
  have hstart : api.Untouched P victim s.db [] s :=
    ⟨a, hvictim, AgreeFor.refl victim.id s.db, fun r hr => absurd hr List.not_mem_nil⟩
  obtain ⟨held, -, hshown, hend⟩ := h.invariant
    (I := fun held t => api.Untouched P victim s.db held t) (fun _ _ _ => Untouched.respond) hstart
  refine ⟨hend.present, hend.agree, fun answer hanswer r hr => ?_⟩
  have hforeign := hend.held r (hshown answer hanswer (Option.mem_toList.mpr hr))
  exact ⟨hforeign.user, hforeign.token⟩

/-- Carol, with a token of hers. -/
def carolAsks (r : AuthResponse) (request : Request .sqlite) : ApiCall .sqlite :=
  ⟨0, 0, 0, [], [], .bookmarks (some ("Bearer ".toList ++ r.token)) request⟩

/-- Carol registers and creates a bookmark; Alice has none. -/
theorem attack_changes_nothing_carol :
    ∃ r : AuthResponse, AgreeFor 1 .twoAccounts (finalState plain.respond twoAccounts
      [carolRegisters, carolAsks r (.crud (.create (.titled 'a')))]).db := by
  obtain ⟨r, hr, -⟩ := session_carolRegisters
  have hattack : Informed plain.respond ApiAnswer.sessions (plain.May Deps.alice) [] twoAccounts
      [carolRegisters, carolAsks r (.crud (.create (.titled 'a')))] :=
    ⟨trivial, may_shown (by decide +kernel)
      (List.mem_append_left [] (Option.mem_toList.mpr hr)) rfl, trivial⟩
  have halice : Deps.alice ∈ twoAccounts.db.users.rows := List.mem_cons_self
  exact ⟨r, (attack_changes_nothing accounts_twoAccounts halice hattack).2.1⟩

/-! ## What an attack learns -/

/-- A request that creates a bookmark, and so shows the number the database gave it. -/
def Creates (call : ApiCall P) : Prop :=
  match call.request with
  | .bookmarks _ request => request.IsCreate
  | _ => False

/-- Two states that differ in the bookmarks of one account alone. -/
structure Alike (victim : UserRow) (s₁ s₂ : ApiState) : Prop where
  users : s₁.db.users = s₂.db.users
  guard : s₁.guard = s₂.guard
  agree : ∀ id, id ≠ victim.id → AgreeFor id s₁.db s₂.db

/-- **A request of an attack answers alike**, and leaves the states so. -/
theorem Alike.respond (hmay : api.May victim held call) (hcreate : ¬ Creates call)
    (h : Alike victim s₁ s₂) (a₁ : Accounts P s₁.db) (a₂ : Accounts P s₂.db)
    (hheld : ∀ r ∈ held, api.Foreign victim r) :
    (api.respond s₁ call).1 = (api.respond s₂ call).1 ∧
      Alike victim (api.respond s₁ call).2 (api.respond s₂ call).2 := by
  rw [Api.respond, Api.respond]
  rcases hreq : call.request with payload | payload | ⟨authorization, request⟩
  · simp only [register]
    rcases Except.map_eq_map (AuthService.register_congr call.now payload.username payload.email
        (api.hash call.salt payload.password) h.users)
      with ⟨x, h₁, h₂⟩ | ⟨⟨d₁, user₁⟩, ⟨d₂, user₂⟩, h₁, h₂, hboth⟩
    · rw [h₁, h₂]
      exact ⟨rfl, h⟩
    · obtain ⟨husers, rfl⟩ := Prod.ext_iff.mp hboth
      obtain ⟨-, hadds₁, -⟩ := AuthService.register_adds a₁ h₁
      obtain ⟨-, hadds₂, -⟩ := AuthService.register_adds a₂ h₂
      rw [h₁, h₂]
      refine ⟨rfl, husers, h.guard, fun id hid => ?_⟩
      rw [AgreeFor, hadds₁.view, hadds₂.view]
      exact h.agree id hid
  · have hlogin : api.login s₁ call payload = api.login s₂ call payload := by
      simp only [login, AuthService.login, UserRepository.getByEmail, h.users, h.guard]
    simp only [hlogin]
    exact ⟨trivial, h.users, rfl, h.agree⟩
  · have huser : Deps.getCurrentUser P api.tokens s₁.db call.now authorization
        = Deps.getCurrentUser P api.tokens s₂.db call.now authorization := by
      simp only [Deps.getCurrentUser, UserRepository.getById, h.users]
    simp only [bookmarks, huser]
    rcases hserved : Deps.getCurrentUser P api.tokens s₂.db call.now authorization with x | user
    · exact ⟨rfl, h⟩
    have hne := hmay.served_ne hheld hreq hserved
    have hreg : s₁.db.Registered user.id ↔ s₂.db.Registered user.id := by
      rw [Db.Registered, Db.Registered, h.users]
    rw [Creates, hreq] at hcreate
    obtain ⟨hout, hagree⟩ := Routers.respond_congr a₁.integrity a₂.integrity (h.agree _ hne) hreg
      call.now hcreate
    obtain ⟨-, K₁⟩ := Routers.respond_keeps a₁.integrity ⟨user.id, call.now, request⟩
    obtain ⟨-, K₂⟩ := Routers.respond_keeps a₂.integrity ⟨user.id, call.now, request⟩
    refine ⟨congrArg ApiAnswer.bookmarks hout, ?_, h.guard, fun id hid => ?_⟩
    · exact K₁.users.trans (h.users.trans K₂.users.symm)
    · by_cases hsame : id = user.id
      · exact hsame ▸ hagree
      · intro k
        exact ((Routers.agreeFor_respond a₁.integrity hsame _ _ k).symm.trans
          (h.agree id hid k)).trans (Routers.agreeFor_respond a₂.integrity hsame _ _ k)

end Api
