import MeasuredBoot.Extract.State

/-!
The loops of the extractors and the separator check they share. A `for ... range` loop whose
body may `continue`, `break` or return an error is `forRange` over a body returning a `Flow`;
`forRange_eq_ok` splits a successful loop into the passes that continued and the one that
broke, if any.
-/

namespace MeasuredBoot

/-- What one pass of a loop body does besides failing: go on to the next element, or break. -/
inductive Flow (σ : Type)
  | next (state : σ)
  | stop (state : σ)

variable {α σ : Type}

/-- `for _, x := range xs { body }`, where `body` updates the loop's state and may break or
return an error. -/
def forRange (step : σ → α → Except GoError (Flow σ)) : σ → List α → Except GoError σ
  | state, [] => .ok state
  | state, x :: rest =>
      match step state x with
      | .error err => .error err
      | .ok (.next state') => forRange step state' rest
      | .ok (.stop state') => .ok state'

/-- The passes over `xs` all continued, from `state` to `state'`. -/
inductive Continues (step : σ → α → Except GoError (Flow σ)) : σ → List α → σ → Prop
  | nil (state : σ) : Continues step state [] state
  | cons {state state' final : σ} {x : α} {rest : List α} :
      step state x = .ok (.next state') → Continues step state' rest final →
        Continues step state (x :: rest) final

section Loops

variable {step : σ → α → Except GoError (Flow σ)}

theorem forRange_append (state state' : σ) (pre rest : List α) (ran : Continues step state pre state') :
    forRange step state (pre ++ rest) = forRange step state' rest := by
  induction ran with
  | nil => rfl
  | cons passed _ ih => rw [List.cons_append, forRange, passed]; exact ih

theorem Continues.forRange_eq {state final : σ} {xs : List α} (ran : Continues step state xs final) :
    forRange step state xs = .ok final := by
  simpa [forRange] using forRange_append state final xs [] ran

theorem forRange_append_stop (state state' final : σ) (pre rest : List α) (x : α)
    (ran : Continues step state pre state') (broke : step state' x = .ok (.stop final)) :
    forRange step state (pre ++ x :: rest) = .ok final := by
  rw [forRange_append state state' pre _ ran, forRange, broke]

theorem forRange_eq_ok (state final : σ) (xs : List α) (ran : forRange step state xs = .ok final) :
    Continues step state xs final ∨
      ∃ pre x rest state', xs = pre ++ x :: rest ∧ Continues step state pre state' ∧
        step state' x = .ok (.stop final) := by
  induction xs generalizing state with
  | nil =>
      simp only [forRange, Except.ok.injEq] at ran
      exact .inl (ran ▸ .nil state)
  | cons x rest ih =>
      simp only [forRange] at ran
      split at ran
      next => cases ran
      next state' passed =>
        rcases ih state' ran with all | ⟨pre, y, post, state'', split, run, broke⟩
        · exact .inl (.cons passed all)
        · exact .inr ⟨x :: pre, y, post, state'', by rw [split]; rfl, .cons passed run, broke⟩
      next state' broke =>
        simp only [Except.ok.injEq] at ran
        exact .inr ⟨[], x, rest, state, rfl, .nil state, ran ▸ broke⟩

theorem Continues.invariant (P : σ → Prop)
    (preserved : ∀ state x state', P state → step state x = .ok (.next state') → P state')
    {state final : σ} {xs : List α} (ran : Continues step state xs final) (start : P state) :
    P final := by
  induction ran with
  | nil => exact start
  | cons passed _ ih => exact ih (preserved _ _ _ start passed)

theorem forRange_append_of_not_continues (state : σ) (pre rest : List α)
    (stops : ¬∃ final, Continues step state pre final) :
    forRange step state (pre ++ rest) = forRange step state pre := by
  induction pre generalizing state with
  | nil => exact absurd ⟨state, .nil state⟩ stops
  | cons x pre ih =>
      simp only [List.cons_append, forRange]
      split
      next => rfl
      next state' passed => exact ih state' fun ⟨final, ran⟩ => stops ⟨final, .cons passed ran⟩
      next => rfl

theorem forRange_append_of_never_stops (nonstop : ∀ state x state', step state x ≠ .ok (.stop state'))
    (state : σ) (pre rest : List α) :
    forRange step state (pre ++ rest) =
      (forRange step state pre).bind fun mid => forRange step mid rest := by
  induction pre generalizing state with
  | nil => rfl
  | cons x pre ih =>
      simp only [List.cons_append, forRange]
      split
      next => rfl
      next state' _ => exact ih state'
      next state' broke => exact absurd broke (nonstop _ _ _)

theorem forRange_eq_ok_iff_of_update (passes : α → Prop) (update : σ → α → σ)
    (goesOn : ∀ state x, passes x → step state x = .ok (.next (update state x)))
    (fails : ∀ state x, ¬passes x → ∃ err, step state x = .error err) (state final : σ) (xs : List α) :
    forRange step state xs = .ok final ↔ (∀ x ∈ xs, passes x) ∧ final = xs.foldl update state := by
  induction xs generalizing state with
  | nil => simp only [forRange, Except.ok.injEq, List.not_mem_nil, false_implies, implies_true,
      true_and, List.foldl_nil, eq_comm]
  | cons x rest ih =>
      by_cases passed : passes x
      · rw [forRange, goesOn state x passed]
        simp only [ih, List.mem_cons, forall_eq_or_imp, passed, true_and, List.foldl_cons]
      · obtain ⟨err, failed⟩ := fails state x passed
        rw [forRange, failed]
        simp only [reduceCtorEq, false_iff, not_and]
        exact fun all => absurd (all x (List.mem_cons_self x rest)) passed

theorem forRange_eq_ok_iff_of_breaks (passes breaks : α → Prop) (update : σ → α → σ)
    (goesOn : ∀ state x, passes x → step state x = .ok (.next (update state x)))
    (stops : ∀ state x, breaks x → step state x = .ok (.stop state))
    (fails : ∀ state x, ¬passes x → ¬breaks x → ∃ err, step state x = .error err)
    (state final : σ) (xs : List α) :
    forRange step state xs = .ok final ↔ ∃ pre rest, xs = pre ++ rest ∧ (∀ x ∈ pre, passes x) ∧
      (∀ x ∈ rest.head?, breaks x) ∧ final = pre.foldl update state := by
  induction xs generalizing state with
  | nil =>
      simp only [forRange, Except.ok.injEq, List.nil_eq_append_iff]
      constructor
      · rintro rfl
        exact ⟨[], [], ⟨rfl, rfl⟩, by simp, by simp, rfl⟩
      · rintro ⟨_, _, ⟨rfl, rfl⟩, -, -, rfl⟩
        rfl
  | cons x rest ih =>
      have apart (passed : passes x) (broke : breaks x) : False := by
        cases (goesOn state x passed).symm.trans (stops state x broke)
      by_cases passed : passes x
      · rw [forRange, goesOn state x passed, ih]
        constructor
        · rintro ⟨pre, post, rfl, all, head, rfl⟩
          exact ⟨x :: pre, post, rfl, List.forall_mem_cons.2 ⟨passed, all⟩, head, rfl⟩
        · rintro ⟨_ | ⟨y, pre⟩, post, split, all, head, rfl⟩
          · rw [List.nil_append] at split
            subst split
            exact (apart passed (head x rfl)).elim
          · obtain ⟨rfl, rfl⟩ := List.cons_eq_cons.1 split
            exact ⟨pre, post, rfl, fun z mem => all z (List.mem_cons_of_mem _ mem), head, rfl⟩
      by_cases broke : breaks x
      · rw [forRange, stops state x broke, Except.ok.injEq]
        constructor
        · rintro rfl
          exact ⟨[], x :: rest, rfl, by simp, fun y mem => by cases mem; exact broke, rfl⟩
        · rintro ⟨_ | ⟨y, pre⟩, post, split, all, -, rfl⟩
          · rfl
          · obtain ⟨rfl, -⟩ := List.cons_eq_cons.1 split
            exact (apart (all x (List.mem_cons_self _ _)) broke).elim
      · obtain ⟨err, failed⟩ := fails state x passed broke
        rw [forRange, failed]
        simp only [reduceCtorEq, false_iff, not_exists, not_and]
        rintro (_ | ⟨y, pre⟩) post split all head -
        · rw [List.nil_append] at split
          subst split
          exact broke (head x rfl)
        · obtain ⟨rfl, -⟩ := List.cons_eq_cons.1 split
          exact passed (all x (List.mem_cons_self _ _))

theorem forall_mem_enum (P : α → Prop) (l : List α) :
    (∀ x ∈ l.enum, P x.2) ↔ ∀ a ∈ l, P a := by
  conv_rhs => rw [← List.enum_map_snd l]
  simp only [List.forall_mem_map]

theorem foldl_enum_snd (f : σ → α → σ) (state : σ) (l : List α) :
    l.enum.foldl (fun st x => f st x.2) state = l.foldl f state := by
  rw [← List.foldl_map Prod.snd f l.enum state, List.enum_map_snd]

theorem forRange_append_of_breaks (x : α) (breaks : ∀ state, ∃ state', step state x = .ok (.stop state'))
    (state : σ) (pre rest : List α) :
    forRange step state (pre ++ x :: rest) = forRange step state (pre ++ [x]) := by
  by_cases ran : ∃ mid, Continues step state pre mid
  · obtain ⟨mid, ran⟩ := ran
    obtain ⟨final, broke⟩ := breaks mid
    rw [forRange_append_stop _ _ _ _ _ _ ran broke, forRange_append_stop _ _ _ _ _ _ ran broke]
  · rw [forRange_append_of_not_continues _ _ _ ran, forRange_append_of_not_continues _ _ _ ran]

theorem forRange_filter (p : α → Bool) (skips : ∀ state x, p x = false → step state x = .ok (.next state))
    (state : σ) (xs : List α) :
    forRange step state (xs.filter p) = forRange step state xs := by
  induction xs generalizing state with
  | nil => rfl
  | cons x rest ih =>
      by_cases kept : p x = true
      · rw [List.filter_cons_of_pos kept]
        simp only [forRange, ih]
      · have dropped : p x = false := by simpa using kept
        rw [List.filter_cons_of_neg kept, ih, forRange, skips state x dropped]

theorem Continues.of_skipped (state : σ) (xs : List α)
    (skips : ∀ x ∈ xs, step state x = .ok (.next state)) : Continues step state xs state := by
  induction xs with
  | nil => exact .nil state
  | cons x rest ih =>
      exact .cons (skips x (List.mem_cons_self x rest)) (ih fun y mem => skips y (List.mem_cons_of_mem x mem))

theorem Continues.invariant_after (P : List α → σ → Prop)
    (preserved : ∀ done state x state', P done state → step state x = .ok (.next state') →
      P (done ++ [x]) state')
    {state final : σ} {xs done : List α} (ran : Continues step state xs final) (start : P done state) :
    P (done ++ xs) final := by
  induction ran generalizing done with
  | nil => simpa using start
  | cons passed _ ih => simpa using ih (preserved _ _ _ _ start passed)

theorem pair_sublist_append_singleton {a b x : α} {done : List α} :
    [a, b].Sublist (done ++ [x]) ↔ [a, b].Sublist done ∨ (a ∈ done ∧ b = x) := by
  constructor
  · intro sub
    obtain ⟨l₁, l₂, split, first, second⟩ := List.sublist_append_iff.1 sub
    rcases List.sublist_singleton.1 second with rfl | rfl
    · rw [List.append_nil] at split
      exact .inl (split ▸ first)
    · rcases l₁ with _ | ⟨a', _ | ⟨_, _⟩⟩ <;> simp only [List.nil_append, List.cons_append,
        List.cons.injEq, List.nil_append, reduceCtorEq, and_false, false_and, and_true,
        List.nil_eq, List.append_eq_nil, List.cons_ne_nil] at split
      obtain ⟨rfl, rfl⟩ := split
      exact .inr ⟨List.singleton_sublist.1 first, rfl⟩
  · rintro (old | ⟨mem, rfl⟩)
    · exact old.trans (List.sublist_append_left done [x])
    · exact (List.singleton_sublist.2 mem).append (List.Sublist.refl [b])

theorem Continues.append {state mid final : σ} {pre rest : List α}
    (first : Continues step state pre mid) (second : Continues step mid rest final) :
    Continues step state (pre ++ rest) final := by
  induction first with
  | nil => exact second
  | cons passed _ ih => exact .cons passed (ih second)

end Loops

/-- Each element of `xs` passes, given the elements before it, `done` first. -/
def EachPasses (passes : List α → α → Prop) (done xs : List α) : Prop :=
  ∀ pre x post, xs = pre ++ x :: post → passes (done ++ pre) x

section Summary

variable {step : σ → α → Except GoError (Flow σ)} {passes : List α → α → Prop}

@[simp] theorem eachPasses_nil (done : List α) : EachPasses passes done [] :=
  fun pre x post split => by simp at split

theorem eachPasses_cons (done : List α) (x : α) (rest : List α) :
    EachPasses passes done (x :: rest) ↔ passes done x ∧ EachPasses passes (done ++ [x]) rest := by
  constructor
  · intro each
    refine ⟨by simpa using each [] x rest rfl, fun pre y post split => ?_⟩
    simpa using each (x :: pre) y post (by rw [split]; rfl)
  · rintro ⟨passed, each⟩ (_ | ⟨z, pre⟩) y post split
    · obtain ⟨rfl, rfl⟩ := List.cons_eq_cons.1 split
      simpa using passed
    · obtain ⟨rfl, restSplit⟩ := List.cons_eq_cons.1 split
      simpa using each pre y post restSplit

theorem forRange_eq_ok_iff_of_summary (summary : List α → σ) (breaks : List α → α → Prop)
    (stopped : List α → α → σ)
    (goesOn : ∀ done x state, step (summary done) x = .ok (.next state) ↔
      passes done x ∧ state = summary (done ++ [x]))
    (stops : ∀ done x state, step (summary done) x = .ok (.stop state) ↔
      breaks done x ∧ state = stopped done x)
    (done xs : List α) (final : σ) :
    forRange step (summary done) xs = .ok final ↔
      (EachPasses passes done xs ∧ final = summary (done ++ xs)) ∨
      ∃ pre x post, xs = pre ++ x :: post ∧ EachPasses passes done pre ∧ breaks (done ++ pre) x ∧
        final = stopped (done ++ pre) x := by
  induction xs generalizing done with
  | nil =>
      simp only [forRange, Except.ok.injEq, eachPasses_nil, List.append_nil, true_and]
      constructor
      · rintro rfl; exact .inl rfl
      · rintro (rfl | ⟨pre, x, post, split, -⟩)
        · rfl
        · simp at split
  | cons x rest ih =>
      rw [forRange, eachPasses_cons]
      have wentOn (passed : passes done x) : step (summary done) x = .ok (.next (summary (done ++ [x]))) :=
        (goesOn done x _).2 ⟨passed, rfl⟩
      have broke (breaking : breaks done x) : step (summary done) x = .ok (.stop (stopped done x)) :=
        (stops done x _).2 ⟨breaking, rfl⟩
      cases stepped : step (summary done) x with
      | error err =>
          simp only [reduceCtorEq, false_iff, not_or, not_exists, not_and]
          refine ⟨fun passed => by simp [wentOn passed.1] at stepped, ?_⟩
          rintro (_ | ⟨y, pre⟩) z post split each breaking -
          · obtain ⟨rfl, rfl⟩ := List.cons_eq_cons.1 split
            simp [broke (by simpa using breaking)] at stepped
          · obtain ⟨rfl, -⟩ := List.cons_eq_cons.1 split
            simp [wentOn ((eachPasses_cons done x pre).1 each).1] at stepped
      | ok flow =>
          cases flow with
          | next state =>
              obtain ⟨passed, rfl⟩ := (goesOn done x state).1 stepped
              have notBroke : ¬breaks done x := fun breaking => by simp [broke breaking] at stepped
              simp only [ih, passed, true_and, List.append_assoc, List.singleton_append]
              refine or_congr_right ⟨?_, ?_⟩
              · rintro ⟨pre, y, post, rfl, each, breaking, rfl⟩
                exact ⟨x :: pre, y, post, rfl, (eachPasses_cons done x pre).2 ⟨passed, each⟩,
                  by simpa using breaking, by simp⟩
              · rintro ⟨_ | ⟨z, pre⟩, y, post, split, each, breaking, rfl⟩
                · obtain ⟨rfl, rfl⟩ := List.cons_eq_cons.1 split
                  exact (notBroke (by simpa using breaking)).elim
                · obtain ⟨rfl, rfl⟩ := List.cons_eq_cons.1 split
                  exact ⟨pre, y, post, rfl, ((eachPasses_cons done x pre).1 each).2,
                    by simpa using breaking, by simp⟩
          | stop state =>
              obtain ⟨breaking, rfl⟩ := (stops done x state).1 stepped
              have notPassed : ¬passes done x := fun passed => by simp [wentOn passed] at stepped
              simp only [Except.ok.injEq, notPassed, false_and, false_or]
              constructor
              · rintro rfl
                exact ⟨[], x, rest, rfl, eachPasses_nil done, by simpa using breaking, by simp⟩
              · rintro ⟨_ | ⟨z, pre⟩, y, post, split, each, -, rfl⟩
                · obtain ⟨rfl, rfl⟩ := List.cons_eq_cons.1 split
                  simp
                · obtain ⟨rfl, -⟩ := List.cons_eq_cons.1 split
                  exact (notPassed ((eachPasses_cons done x pre).1 each).1).elim

end Summary

/-! ### Separators -/

/-- `contains`. -/
def contains (set : List Bytes) (value : Bytes) : Bool := set.any fun item => item == value

theorem contains_iff (set : List Bytes) (value : Bytes) : contains set value = true ↔ value ∈ set := by
  simp only [contains, List.any_eq_true, beq_iff_eq]
  exact ⟨fun ⟨_, mem, same⟩ => same ▸ mem, fun mem => ⟨value, mem, rfl⟩⟩

structure SeparatorInfo where
  separatorData : List Bytes
  separatorDigests : List Bytes

/-- `getSeparatorInfo`. One hasher writes both values with no reset in between, so the second
digest is of the two values written one after the other. -/
def getSeparatorInfo (H : Hasher) (hash : Hash) : SeparatorInfo :=
  let sepData : List Bytes := [[0, 0, 0, 0], [0xff, 0xff, 0xff, 0xff]]
  let sepDigests := (sepData.foldl (fun (written, digests) value =>
    (written ++ value, digests ++ [H.sum hash (written ++ value)])) ([], [])).2
  { separatorData := sepData, separatorDigests := sepDigests }

theorem getSeparatorInfo_separatorDigests (H : Hasher) (hash : Hash) :
    (getSeparatorInfo H hash).separatorDigests =
      [H.sum hash [0, 0, 0, 0], H.sum hash [0, 0, 0, 0, 0xff, 0xff, 0xff, 0xff]] := rfl

/-- `checkIfValidSeparator`: whether the event is a valid separator, or an error for an event
that claims to be a separator, or carries a separator digest, and is not a valid one. -/
def checkIfValidSeparator (event : Event) (sepInfo : SeparatorInfo) : Except GoError Bool :=
  let evtType := event.type
  let index := event.index
  if evtType ≠ EventType.separator ∧ !contains sepInfo.separatorDigests event.digest then .ok false
  else if evtType ≠ EventType.separator then
    .error (.failed s!"MR{index} event contains separator data but non-separator type {evtType}")
  else if !event.digestVerified then .error (.failed s!"unverified separator digest for MR{index}")
  else if !contains sepInfo.separatorData event.data then
    .error (.failed s!"invalid separator data for MR{index}")
  else .ok true

theorem checkIfValidSeparator_eq_true (event : Event) (sepInfo : SeparatorInfo) :
    checkIfValidSeparator event sepInfo = .ok true ↔
      event.type = EventType.separator ∧ event.digestVerified = true ∧
        event.data ∈ sepInfo.separatorData := by
  unfold checkIfValidSeparator
  by_cases typed : event.type = EventType.separator
  · simp only [typed, ne_eq, not_true_eq_false, false_and, if_false, true_and, ← contains_iff]
    split_ifs <;> simp_all
  · simp only [typed, false_and, iff_false]
    split_ifs <;> simp

theorem checkIfValidSeparator_spoofed (event : Event) (sepInfo : SeparatorInfo)
    (typed : event.type ≠ EventType.separator) (spoofed : event.digest ∈ sepInfo.separatorDigests) :
    ∃ err, checkIfValidSeparator event sepInfo = .error err := by
  rw [← contains_iff] at spoofed
  simp [checkIfValidSeparator, typed, spoofed]

end MeasuredBoot
