import MutationLab.Proofs.Stepping

/-! # Limits of the call depth

A lower limit of the call depth cuts a run short and does nothing else. Step by step, the run under
the lower limit is the run under the higher one, until the lower limit forbids a call; then the one
ends with an overflow, and what it leaves behind is a part of what the other leaves
(`Machine.truncated_runFrom`). -/

namespace MutationLab

namespace Example

/-- A function that counts down to zero, printing the numbers, each in a call of its own. -/
def countdown : Image where
  functions := #[
    { symbol := "countdown", params := 1, registers := 2, probe := none,
      code := #[.print 0, .branch 0 2 5, .const 1 1, .binary 0 .sub 0 1, .call none 0 [0],
        .return none] }]

end Example

/-- The same choices, with so many calls allowed at once. -/
def Setup.upTo (s : Setup) (limit : Nat) : Setup := { s with maxDepth := limit }

namespace Machine

/-- The first outcome is the second one, or it was cut off before: then it is an overflow, and what
it has left behind is continued by the second. -/
def Truncated {α : Type} (overflow : α) (x y : α × Effects) : Prop :=
  x = y ∨ x.1 = overflow ∧ ∃ count, x.2.Adds count y.2

section

variable (image : Image) (setup : Setup) {low high : Nat} (h : low ≤ high)

include h

/-- Beginning a call under the lower limit begins it under the higher one, or is an overflow. -/
theorem truncated_enter (index : Nat) (arguments : List Int64) (result : Option Register)
    (depth : Nat) (e : Effects) :
    Truncated (.error (.stackOverflow low))
      (enter image (setup.upTo low) index arguments result depth e)
      (enter image (setup.upTo high) index arguments result depth e) := by
  cases hfunction : image.function? index with
  | none =>
    rw [enter, enter, hfunction]
    exact .inl rfl
  | some f =>
    by_cases hlow : low ≤ depth
    · -- The limit is checked before anything is traced.
      rw [enter_of_le hfunction hlow]
      exact .inr ⟨rfl, 0, adds_enter ..⟩
    · have hhigh : ¬ high ≤ depth := fun hle => hlow (h.trans hle)
      by_cases harity : f.params.toNat = arguments.length
      · rw [enter_of_eq hfunction hlow harity, enter_of_eq hfunction hhigh harity]
        exact .inl rfl
      · rw [enter_of_ne hfunction hlow harity, enter_of_ne hfunction hhigh harity]
        exact .inl rfl

/-- So is going on with it. -/
theorem truncated_proceed (below : List Frame) (index : Nat) (arguments : List Int64)
    (result : Option Register) (depth : Nat) (e : Effects) :
    Truncated (.stop (.error (.stackOverflow low)))
      (proceed below (enter image (setup.upTo low) index arguments result depth e))
      (proceed below
        (enter image (setup.upTo high) index arguments result depth e)) := by
  obtain heq | ⟨hoverflow, count, hadds⟩ :=
    truncated_enter image setup h index arguments result depth e
  · exact .inl (congrArg (proceed below) heq)
  · refine .inr ⟨?_, count, ?_⟩
    · rw [← Prod.eta (enter image _ index arguments result depth e), hoverflow]
      rfl
    · rwa [proceed_snd, proceed_snd]

/-- **A step under the lower limit** is a step under the higher one, or an overflow. -/
theorem truncated_step (top : Frame) (below : List Frame) (e : Effects) :
    Truncated (.stop (.error (.stackOverflow low)))
      (step image (setup.upTo low) top below e)
      (step image (setup.upTo high) top below e) := by
  by_cases hstops : setup.watchdog.StopsAt (e.steps + 1)
  · have hlow : (setup.upTo low).watchdog.StopsAt (e.steps + 1) := hstops
    have hhigh : (setup.upTo high).watchdog.StopsAt (e.steps + 1) := hstops
    rw [step_of_stopsAt hlow, step_of_stopsAt hhigh]
    exact .inl rfl
  · have hlow : ¬ (setup.upTo low).watchdog.StopsAt (e.steps + 1) := hstops
    have hhigh : ¬ (setup.upTo high).watchdog.StopsAt (e.steps + 1) := hstops
    rw [step_of_not_stopsAt hlow, step_of_not_stopsAt hhigh]
    obtain ⟨index, arguments, result, depth, callers, henter⟩ | ⟨next, text, hprint⟩ :=
      fetch_cases setup.selector top below
    · rw [henter image (setup.upTo low) e.tick rfl, henter image (setup.upTo high) e.tick rfl]
      exact truncated_proceed image setup h callers index arguments result depth e.tick
    · rw [hprint image (setup.upTo low) e.tick rfl, hprint image (setup.upTo high) e.tick rfl]
      exact .inl rfl

omit h in
/-- After an overflow the one run is over, and the other one adds to what was left behind. -/
theorem truncated_of_overflow (fuel : Nat) {x y : Next × Effects}
    (hoverflow : x.1 = .stop (.error (.stackOverflow low))) {count : Nat}
    (hadds : x.2.Adds count y.2) :
    Truncated (some (.error (.stackOverflow low)))
      (runFrom image (setup.upTo low) fuel x) (runFrom image (setup.upTo high) fuel y) := by
  obtain ⟨next, e⟩ := x
  obtain rfl : next = _ := hoverflow
  obtain ⟨more, -, hmore, -⟩ :=
    exists_adds_runFrom image (setup.upTo high) fuel y
  exact .inr ⟨rfl, count + more, hadds.trans hmore⟩

/-- **A run under the lower limit** is the run under the higher one, or it ends with an overflow. -/
theorem truncated_runFrom (fuel : Nat) (next : Next × Effects) :
    Truncated (some (.error (.stackOverflow low)))
      (runFrom image (setup.upTo low) fuel next) (runFrom image (setup.upTo high) fuel next) := by
  induction fuel generalizing next with
  | zero => obtain ⟨_ | _, _⟩ := next <;> exact .inl rfl
  | succ fuel ih =>
    obtain ⟨⟨top, below⟩ | reply, e⟩ := next
    · rw [runFrom_succ, runFrom_succ]
      obtain heq | ⟨hoverflow, count, hadds⟩ :=
        truncated_step image setup h top below e
      · rw [heq]
        exact ih _
      · exact truncated_of_overflow image setup fuel hoverflow hadds
    · exact .inl rfl

/-- So is a call. -/
theorem truncated_call (fuel index : Nat) (arguments : List Int64) (e : Effects) :
    Truncated (some (.error (.stackOverflow low)))
      (call image (setup.upTo low) fuel index arguments e)
      (call image (setup.upTo high) fuel index arguments e) := by
  rw [call_eq, call_eq]
  obtain heq | ⟨hoverflow, count, hadds⟩ :=
    truncated_proceed image setup h [] index arguments none 0 e
  · rw [heq]
    exact truncated_runFrom image setup h fuel _
  · exact truncated_of_overflow image setup fuel hoverflow hadds

end

/-- **A limit of the call depth only truncates.** Take two limits and a call of any function. Under
the lower limit the call behaves exactly as under the higher one, at every moment: it has the same
reply or is not over, and has made the same steps, printed the same text and passed the same probes.
Or else it ends with an overflow of the lower limit. Then whatever the call under the higher limit
has printed by then or later begins with what was printed under the lower one, and it has made at
least as many steps. In particular a call that does not overflow ends in the same way under every
higher limit. -/
theorem depth_limit_truncates (image : Image) (setup : Setup) {low high : Nat} (h : low ≤ high)
    (index : Nat) (arguments : List Int64) (e : Effects) :
    ((∀ fuel, call image (setup.upTo low) fuel index arguments e =
        call image (setup.upTo high) fuel index arguments e) ∨
      ∃ fuel cut, call image (setup.upTo low) fuel index arguments e =
          (some (.error (.stackOverflow low)), cut) ∧
        ∀ more, fuel ≤ more →
          (∃ text, (call image (setup.upTo high) more index arguments e).2.stdout =
            cut.stdout ++ text) ∧
          cut.steps ≤ (call image (setup.upTo high) more index arguments e).2.steps) ∧
    ∀ fuel reply e', call image (setup.upTo low) fuel index arguments e = (some reply, e') →
      reply ≠ .error (.stackOverflow low) →
      call image (setup.upTo high) fuel index arguments e = (some reply, e') := by
  have htruncated := fun fuel =>
    truncated_call image setup h fuel index arguments e
  constructor
  · by_cases hcut : ∃ fuel, (call image (setup.upTo low) fuel index arguments e).1 =
        some (.error (.stackOverflow low))
    · obtain ⟨fuel, hreply⟩ := hcut
      refine .inr ⟨fuel, _, Prod.ext hreply rfl, fun more hle => ?_⟩
      have hsame : call image (setup.upTo low) more index arguments e = (_, _) :=
        call_of_le (Prod.ext hreply rfl) hle
      obtain ⟨count, hadds⟩ : ∃ count,
          (call image (setup.upTo low) fuel index arguments e).2.Adds count
            (call image (setup.upTo high) more index arguments e).2 := by
        -- The call that was cut off is over, so it is the same with more fuel.
        obtain heq | ⟨-, hadds⟩ := htruncated more
        · rw [← heq, hsame]
          exact ⟨0, .refl _⟩
        · rwa [hsame] at hadds
      exact ⟨hadds.stdout_eq, hadds.steps_eq ▸ Nat.le_add_right _ _⟩
    · refine .inl fun fuel => (htruncated fuel).resolve_right ?_
      rintro ⟨hoverflow, -⟩
      exact hcut ⟨fuel, hoverflow⟩
  · intro fuel reply e' hcall hreply
    rw [← hcall]
    refine ((htruncated fuel).resolve_right ?_).symm
    rintro ⟨hoverflow, -⟩
    rw [hcall, Option.some.injEq] at hoverflow
    exact hreply hoverflow

/-- `depth_limit_truncates` for a countdown from three. Four calls are enough for it, so it ends
under the usual limit as it ends under this one; and two calls are not, so it is cut off. -/
theorem depth_limit_truncates_example :
    4 ≤ 512 ∧
    call Example.countdown { maxDepth := 512 } 21 0 [3] {} =
      (some (.ok 0), { steps := 21, stdout := "3\n2\n1\n0\n" }) ∧
    ∃ fuel cut, call Example.countdown { maxDepth := 2 } fuel 0 [3] {} =
        (some (.error (.stackOverflow 2)), cut) ∧
      cut.steps ≤ (call Example.countdown { maxDepth := 512 } (max fuel 21) 0 [3] {}).2.steps := by
  have henough : call Example.countdown (Setup.upTo {} 4) 21 0 [3] {} =
      (some (.ok 0), { steps := 21, stdout := "3\n2\n1\n0\n" }) := by decide +kernel
  have hends := (depth_limit_truncates Example.countdown {} (by decide : 4 ≤ 512) 0 [3] {}).2
    21 _ _ henough nofun
  refine ⟨by decide, hends, ?_⟩
  obtain heq | ⟨fuel, cut, hcut, hlater⟩ := (depth_limit_truncates Example.countdown {}
    (by decide : 2 ≤ 512) 0 [3] {}).1
  · have hcut : (call Example.countdown (Setup.upTo {} 2) 21 0 [3] {}).1 =
        some (.error (.stackOverflow 2)) := by decide +kernel
    rw [heq 21, hends] at hcut
    exact nomatch hcut
  · exact ⟨fuel, cut, hcut, (hlater _ (Nat.le_max_left _ _)).2⟩

end Machine

end MutationLab
