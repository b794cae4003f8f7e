import BookmarksApi.Machinery.Runs
import BookmarksApi.Store.Frame

/-!
# Sequential/TagStore — which tags there are, and which bookmark has which

Rows of `tags` come about one by one, when a request names a tag for the first time, and are shared
and kept from then on.  What ties them to the requests is the list that was accepted last for each
bookmark (`AcceptedTags`): whatever the requests, a bookmark's links are those names
(`tag_store_invariant`).
-/

variable {P : Platform}

/-- The tag list accepted last for each bookmark there is, as the schema normalized it. -/
abbrev AcceptedTags := ℤ → Option (List Str)

/-- **What an answered request accepts**: a list, with a new bookmark or for an old one, or that the
bookmark is gone. -/
def AcceptedTags.record (a : AcceptedTags) (c : Crud P) (r : Response Body) : AcceptedTags :=
  match c with
  | .create payload =>
    match r.body with
    | .inl (.bookmark b) => Function.update a b.id (some payload.tags)
    | _ => a
  | .get _ => a
  | .update bookmarkId payload _ =>
    match r.body with
    | .inl _ => payload.tags.join.elim a fun names => Function.update a bookmarkId (some names)
    | .inr _ => a
  | .delete bookmarkId _ =>
    match r.body with
    | .inl _ => Function.update a bookmarkId none
    | .inr _ => a

/-- What the requests of a run have accepted. -/
def acceptedTags (db : Db) (calls : List (Call (Crud P))) : AcceptedTags :=
  (answered Routers.respondCrud db calls).foldl (fun a x => a.record x.input.request x.output)
    fun _ => none

/-- A name as `normalize_tags` leaves it: without white space around it, in lower case, not empty,
and not too long. -/
structure NormalName (P : Platform) (name : Str) : Prop where
  strip : Str.strip name = name
  lower : P.lower name = name
  nonempty : name ≠ []
  short : name.length ≤ maxTagLength

/-- **The tag store**, for what has been accepted. -/
structure TagStore (P : Platform) (db : Db) (a : AcceptedTags) : Prop where
  unique : (db.tags.rows.map TagRow.name).Nodup
  normal : ∀ t ∈ db.tags.rows, NormalName P t.name
  links : ∀ l ∈ db.bookmarkTags.rows,
    (∃ b ∈ db.bookmarks.rows, b.id = l.bookmarkId) ∧ ∃ t ∈ db.tags.rows, t.id = l.tagId
  distinct : db.bookmarkTags.rows.Nodup
  few : ∀ b ∈ db.bookmarks.rows,
    (db.bookmarkTags.rows.filter fun l => l.bookmarkId = b.id).length ≤ maxTagsPerBookmark
  names : ∀ b ∈ db.bookmarks.rows, ∃ names, a b.id = some names ∧
    normalizeTags P names = .ok names ∧ db.tagNames b.id = names.toFinset

/-! ## Names -/

/-- A name that normalizing does not change. -/
theorem NormalName.of_norm {name : Str} (hnorm : P.norm name = name) (hnonempty : name ≠ [])
    (hshort : name.length ≤ maxTagLength) : NormalName P name := by
  have hstrip : Str.strip name = name := by
    rw [← hnorm]
    exact P.strip_lower name
  refine ⟨hstrip, ?_, hnonempty, hshort⟩
  rw [Platform.norm, hstrip] at hnorm
  exact hnorm

theorem Normalized.normalName {names : List Str} (h : Normalized P names) {name : Str}
    (hname : name ∈ names) : NormalName P name :=
  .of_norm (h.norm name hname) (h.nonempty name hname) (h.short name hname)

/-! ## Links -/

/-- **A bookmark has no more links than names.** -/
theorem Db.Integrity.length_links_le {db : Db} (I : db.Integrity) (bookmarkId : ℤ) :
    (db.bookmarkTags.rows.filter fun l => l.bookmarkId = bookmarkId).length
      ≤ (db.tagNames bookmarkId).card := by
  set links := db.bookmarkTags.rows.filter fun l => l.bookmarkId = bookmarkId with hlinks
  set tags := db.tags.rows.filter fun t => db.Linked bookmarkId t with htags
  have hlink : ∀ l ∈ links, l ∈ db.bookmarkTags.rows ∧ l.bookmarkId = bookmarkId := by
    intro l hl
    simpa [hlinks] using hl
  have hids : (links.map LinkRow.tagId).Nodup := by
    refine (db.bookmarkTags.rows_nodup.filter _).map_on fun l hl m hm hid => ?_
    obtain ⟨-, hl⟩ := hlink l hl
    obtain ⟨-, hm⟩ := hlink m hm
    exact LinkRow.key_inj.mp (Prod.ext (hl.trans hm.symm) hid)
  have hsubset : links.map LinkRow.tagId ⊆ tags.map TagRow.id := by
    intro i hi
    obtain ⟨l, hl, rfl⟩ := List.mem_map.mp hi
    obtain ⟨hmem, rfl⟩ := hlink l hl
    obtain ⟨t, ht, hid⟩ := I.linkTag l hmem
    have hlinked : db.Linked l.bookmarkId t := by
      rw [Linked, hid]
      exact hmem
    exact List.mem_map.mpr ⟨t, List.mem_filter.mpr ⟨ht, decide_eq_true hlinked⟩, hid⟩
  have hnames : (tags.map TagRow.name).Nodup :=
    I.tagName.sublist (List.filter_sublist.map TagRow.name)
  calc links.length
      = (links.map LinkRow.tagId).length := (List.length_map _).symm
    _ ≤ (tags.map TagRow.id).length := (List.subperm_of_subset hids hsubset).length_le
    _ = (tags.map TagRow.name).length := by rw [List.length_map, List.length_map]
    _ = (db.tagNames bookmarkId).card := (List.toFinset_card_of_nodup hnames).symm

/-! ## One request -/

/-- An error carries no bookmark. -/
theorem AcceptedTags.record_ofExc (a : AcceptedTags) (c : Crud P) (x : Exc) :
    a.record c (Response.ofExc x) = a := by
  cases c <;> cases x <;> rfl

/-- A list is under an id, or was just put there. -/
theorem AcceptedTags.of_update {a : AcceptedTags} {i k : ℤ} {v : Option (List Str)}
    {names : List Str}
    (h : Function.update a i v k = some names) : a k = some names ∨ v = some names := by
  rw [Function.update_apply] at h
  split_ifs at h
  · exact Or.inr h
  · exact Or.inl h

/-- What is recorded was recorded before, or is given by the request. -/
theorem AcceptedTags.of_record {a : AcceptedTags} {c : Crud P} {r : Response Body} {k : ℤ}
    {names : List Str} (h : a.record c r k = some names) :
    a k = some names ∨ c.names = some names := by
  obtain ⟨status, headers, body | e⟩ := r
  · cases c with
    | create payload =>
      cases body with
      | bookmark b => exact of_update h
      | _ => exact Or.inl h
    | get bookmarkId => exact Or.inl h
    | update bookmarkId payload ifMatch =>
      change (payload.tags.join.elim a _) k = _ at h
      rcases hjoin : payload.tags.join with _ | given
      · rw [hjoin] at h
        exact Or.inl h
      · rw [hjoin] at h
        exact (of_update h).imp_right hjoin.trans
    | delete bookmarkId ifMatch =>
      refine (of_update h).imp_right fun hnone => ?_
      cases hnone
  · cases c <;> exact Or.inl h

/-- **Over the map, what is accepted is what the entries have.** -/
theorem AcceptedTags.record_outcome {s : Entries} {a : AcceptedTags}
    (ha : ∀ k, (s k).map Entry.tags = (a k).map List.toFinset) {fresh user now : ℤ} {c : Crud P}
    {outcome : Response Body × Entries} (h : s.Outcome fresh user now c outcome) (k : ℤ) :
    (outcome.2 k).map Entry.tags = (a.record c outcome.1 k).map List.toFinset := by
  cases h with
  | unread _ _ => rw [record_ofExc, ha]
  | refused _ _ _ => rw [record_ofExc, ha]
  | got _ => exact ha k
  | created payload =>
    change (Function.update s fresh _ k).map _ = (Function.update a fresh _ k).map _
    rw [Function.update_apply, Function.update_apply]
    split_ifs
    · rfl
    · exact ha k
  | @updated i e payload ifMatch he _ =>
    have hold := ha i
    rw [(Entries.owned_eq_some.mp he).1, Option.map_some] at hold
    change (Function.update s i (some (e.change now (Routers.changesOf payload))) k).map _
      = (payload.tags.join.elim a (fun names => Function.update a i (some names)) k).map _
    have htags : (e.change now (Routers.changesOf payload)).tags
        = (payload.tags.join.map List.toFinset).getD e.tags := by
      rw [Entry.change, Routers.changesOf_tags]
    rw [Function.update_apply]
    rcases hjoin : payload.tags.join with _ | names
    · rw [hjoin] at htags
      split_ifs with hk
      · rw [Option.map_some, htags, hk]
        exact hold
      · exact ha k
    · rw [hjoin] at htags
      rw [Option.elim_some, Function.update_apply]
      split_ifs
      · rw [Option.map_some, htags]
        rfl
      · exact ha k
  | @deleted i _ _ _ _ =>
    change (Function.update s i none k).map _ = (Function.update a i none k).map _
    rw [Function.update_apply, Function.update_apply]
    split_ifs
    · rfl
    · exact ha k

/-- **What every request keeps.** -/
structure Tagged (P : Platform) (db : Db) (a : AcceptedTags) : Prop where
  integrity : db.Integrity
  normal : ∀ t ∈ db.tags.rows, NormalName P t.name
  normalized : ∀ k names, a k = some names → Normalized P names
  accepted : ∀ k, (db.view k).map Entry.tags = (a k).map List.toFinset

namespace Tagged

variable {db : Db} {a : AcceptedTags}

/-- **One request.** -/
theorem respond (h : Tagged P db a) (call : Call (Crud P)) :
    Tagged P (Routers.respondCrud db call).2
      (a.record call.request (Routers.respondCrud db call).1) := by
  by_cases hu : db.Registered call.user
  · obtain ⟨hout, hview, hI, -⟩ := Routers.respond_refines h.integrity call hu
    refine ⟨hI, fun t ht => ?_, fun k names hk => ?_, fun k => ?_⟩
    · rcases Routers.tagsFrom_respondCrud db call t ht with ht | hname
      · exact h.normal t ht
      · rcases hnames : call.request.names with _ | names
        · rw [hnames] at hname
          cases hname
        · rw [hnames] at hname
          exact (Crud.normalized_names hnames).normalName hname
    · rcases AcceptedTags.of_record hk with hk | hk
      · exact h.normalized k names hk
      · exact Crud.normalized_names hk
    · rw [hview, hout]
      exact AcceptedTags.record_outcome h.accepted (Entries.respond_outcome _ _ _ _ _) k
  · rw [Routers.respondCrud, Routers.respond_unregistered hu, AcceptedTags.record_ofExc]
    exact h

/-- **Any number of requests.** -/
theorem run (h : Tagged P db a) (calls : List (Call (Crud P))) :
    Tagged P (finalState Routers.respondCrud db calls)
      ((answered Routers.respondCrud db calls).foldl
        (fun a x => a.record x.input.request x.output) a) := by
  induction calls generalizing db a with
  | nil => exact h
  | cons call calls ih => exact ih (h.respond call)

/-- A store without bookmarks and tags. -/
theorem empty (I : db.Integrity) (hbookmarks : db.bookmarks.rows = []) (htags : db.tags.rows = []) :
    Tagged P db fun _ => none := by
  refine ⟨I, by simp [htags], fun _ _ h => (by cases h), fun k => ?_⟩
  have hview : db.view k = none := by
    refine Db.view_eq_none.mpr (Table.get?_eq_none.mpr fun b hb => ?_)
    rw [hbookmarks] at hb
    cases hb
  rw [hview]
  rfl

/-- **It is a tag store.** -/
theorem tagStore (h : Tagged P db a) : TagStore P db a := by
  have hnames : ∀ b ∈ db.bookmarks.rows, ∃ names, a b.id = some names ∧ Normalized P names ∧
      db.tagNames b.id = names.toFinset := by
    intro b hb
    have haccepted := h.accepted b.id
    rw [Db.mem_rows_iff.mp hb, Option.map_some] at haccepted
    obtain ⟨names, hk, htags⟩ := Option.map_eq_some_iff.mp haccepted.symm
    exact ⟨names, hk, h.normalized _ _ hk, htags.symm⟩
  refine ⟨h.integrity.tagName, h.normal,
    fun l hl => ⟨h.integrity.linkBookmark l hl, h.integrity.linkTag l hl⟩,
    db.bookmarkTags.rows_nodup, fun b hb => ?_, fun b hb => ?_⟩
  · obtain ⟨names, -, hnorm, htags⟩ := hnames b hb
    calc _ ≤ (db.tagNames b.id).card := h.integrity.length_links_le b.id
      _ ≤ names.length := htags ▸ names.toFinset_card_le
      _ ≤ maxTagsPerBookmark := hnorm.few
  · obtain ⟨names, hk, hnorm, htags⟩ := hnames b hb
    exact ⟨names, hk, normalizeTags_normalized hnorm, htags⟩

end Tagged

/-! ## Runs -/

/-- Later requests keep the tags. -/
theorem Routers.tags_subset_finalState {db : Db} (I : db.Integrity) (calls : List (Call (Crud P))) :
    db.tags.rows ⊆ (finalState respondCrud db calls).tags.rows := by
  induction calls generalizing db with
  | nil => exact List.Subset.refl _
  | cons call calls ih =>
    obtain ⟨I', hkeeps⟩ := respond_keeps I call.crud
    exact List.Subset.trans hkeeps.tags (ih I')

/-- **The tag store invariant**, over any requests from any empty store: the store is one for the
lists accepted last, and a tag there is stays, for every bookmark whose accepted list names it. -/
theorem tag_store_invariant {db : Db} (I : db.Integrity) (hbookmarks : db.bookmarks.rows = [])
    (htags : db.tags.rows = []) (calls : List (Call (Crud P))) :
    TagStore P (finalState Routers.respondCrud db calls) (acceptedTags db calls) ∧
      ∀ more, ∀ t ∈ (finalState Routers.respondCrud db calls).tags.rows,
        t ∈ (finalState Routers.respondCrud db (calls ++ more)).tags.rows ∧
        (∀ s ∈ (finalState Routers.respondCrud db (calls ++ more)).tags.rows,
          s.name = t.name → s = t) ∧
        ∀ b ∈ (finalState Routers.respondCrud db (calls ++ more)).bookmarks.rows, ∀ names,
          acceptedTags db (calls ++ more) b.id = some names → t.name ∈ names →
            (finalState Routers.respondCrud db (calls ++ more)).Linked b.id t := by
  have hempty := Tagged.empty (P := P) I hbookmarks htags
  refine ⟨(hempty.run calls).tagStore, fun more t ht => ?_⟩
  have hlater := hempty.run (calls ++ more)
  have hmem : t ∈ (finalState Routers.respondCrud db (calls ++ more)).tags.rows := by
    rw [finalState_append]
    exact Routers.tags_subset_finalState (hempty.run calls).integrity more ht
  have hunique : ∀ s ∈ (finalState Routers.respondCrud db (calls ++ more)).tags.rows,
      s.name = t.name → s = t := fun s hs hname => hlater.integrity.eq_of_name hs hmem hname
  refine ⟨hmem, hunique, fun b hb names hnames hname => ?_⟩
  obtain ⟨names', hnames', -, hset⟩ := hlater.tagStore.names b hb
  obtain rfl : names' = names := Option.some.inj (hnames'.symm.trans hnames)
  have hlinked : t.name ∈ (finalState Routers.respondCrud db (calls ++ more)).tagNames b.id := by
    rw [hset]
    exact List.mem_toFinset.mpr hname
  obtain ⟨s, hs, hl, hsname⟩ := Db.mem_tagNames.mp hlinked
  exact hunique s hs hsname ▸ hl

/-- Alice and Bob tag their bookmarks alike; Alice deletes hers, and the tag is still Bob's. -/
theorem tag_store_invariant_twoAccounts :
    let tag : BookmarkCreate .sqlite := .tagged "x".toList (by decide +kernel)
    let calls : List (Call (Crud .sqlite)) := [⟨1, 0, .create tag⟩, ⟨2, 1, .create tag⟩]
    let more : List (Call (Crud .sqlite)) := [⟨1, 2, .delete 1 (some ['*'])⟩]
    TagStore .sqlite (finalState Routers.respondCrud Db.twoAccounts calls)
        (acceptedTags Db.twoAccounts calls) ∧
      (finalState Routers.respondCrud Db.twoAccounts (calls ++ more)).Linked 2 ⟨1, "x".toList⟩ := by
  intro tag calls more
  obtain ⟨hstore, hkept⟩ :=
    tag_store_invariant (P := .sqlite) Db.integrity_twoAccounts rfl rfl calls
  obtain ⟨-, -, hlinked⟩ := hkept more ⟨1, "x".toList⟩ (by decide +kernel)
  have hbob : (finalState Routers.respondCrud Db.twoAccounts (calls ++ more)).bookmarks.rows
      = [⟨2, "https://example.com/".toList, ['a'], none, 2, .seconds 0, .seconds 0, 1⟩] := by
    decide +kernel
  exact ⟨hstore, hlinked _ (hbob ▸ List.mem_cons_self) ["x".toList] (by decide +kernel)
    List.mem_cons_self⟩
