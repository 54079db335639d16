import CssHighlight.Proofs.LineTable
import CssHighlight.Proofs.Simulation

/-!
# What a scan finishes

Looking at a character finishes nothing; taking it adds one style, and the data of a line where
one ends. The styles and lines that a scan finishes are so counted by the text alone.
-/
namespace CssHighlight

namespace Machine

variable {o : ScanOptions} {c : Char} {rest : List Char} {m m' : Machine}

/-- A machine that has finished what another one has. -/
structure Finished (m m' : Machine) : Prop where
  styles : m'.latest.length = m.latest.length
  lines : m'.lines = m.lines

namespace Finished

theorem refl (m : Machine) : Finished m m := ⟨rfl, rfl⟩

theorem update (h : Finished m m') (f : Context → Context) : Finished m (m'.update f) :=
  ⟨h.styles, h.lines⟩

theorem start (h : Finished m m') (style : Style) (text : List Char) :
    Finished m (m'.start style text) :=
  ⟨h.styles, h.lines⟩

theorem restyle (h : Finished m m') (style : Style) : Finished m (m'.restyle style) :=
  ⟨by simpa [latest, Machine.restyle] using h.styles, h.lines⟩

theorem hold (h : Finished m m') (count : Nat) : Finished m (m'.hold count) :=
  ⟨h.styles, h.lines⟩

theorem thenStart (h : Finished m m') (style : Style) : Finished m (m'.thenStart style) :=
  ⟨h.styles, h.lines⟩

theorem punctuate (h : Finished m m') (c : Char) : Finished m (m'.punctuate o c) := by
  unfold Machine.punctuate
  split
  · split <;> exact h.update _
  · split
    · exact (h.update _).thenStart _
    · exact h.update _
  · exact h.update _
  · exact h.update _
  · exact h.update _
  · exact h.update _
  · split
    · exact h.update _
    · exact h
  · split
    · exact h.update _
    · exact h
  all_goals first
    | exact h
    | exact iteInduction (fun _ => h.restyle _) fun _ => h

theorem startToken (h : Finished m m') : Finished m (m'.startToken o c rest) := by
  simp only [Machine.startToken]
  refine iteInduction (fun _ => ((h.update _).start _ _).hold _) fun _ => ?_
  refine iteInduction (fun _ => (h.start _ _).hold _) fun _ => ?_
  refine iteInduction (fun _ => h.start _ _) fun _ => ?_
  refine iteInduction (fun _ => h.start _ _) fun _ => ?_
  refine iteInduction (fun _ => (h.start _ _).hold _) fun _ => ?_
  refine iteInduction (fun _ => (h.start _ _).hold _) fun _ => ?_
  refine iteInduction (fun _ => h.start _ _) fun _ => ?_
  refine iteInduction (fun _ => ((h.update _).start _ _).hold _) fun _ => ?_
  refine iteInduction (fun _ => (h.update _).start _ _) fun _ => ?_
  refine iteInduction (fun _ => (h.start _ _).hold _) fun _ => ?_
  refine iteInduction (fun _ => (h.start _ _).hold _) fun _ => ?_
  exact iteInduction (fun _ => (h.start _ _).punctuate _) fun _ => h

theorem leave (h : Finished m m') : Finished m (m'.leave o c rest) :=
  (h.start _ _).startToken

theorem closeRun (h : Finished m m') : Finished m (m'.closeRun o c rest) := by
  unfold Machine.closeRun
  refine iteInduction (fun _ => ?_) fun _ => (h.update _).leave
  refine iteInduction (fun _ => ((h.update _).start _ _).thenStart _) fun _ => ?_
  exact (((h.update fun _ => _).restyle _).update _).leave

theorem stepQuoted (h : Finished m m') : Finished m (m'.stepQuoted o c rest) := by
  unfold Machine.stepQuoted
  refine iteInduction (fun _ => ?_) fun _ => ?_
  · exact iteInduction (fun _ => h) fun _ => ((h.update _).start _ _).hold _
  refine iteInduction (fun _ => h.leave) fun _ => ?_
  refine iteInduction (fun _ => h.thenStart _) fun _ => ?_
  exact iteInduction (fun _ => ((h.update _).start _ _).hold _) fun _ => h

theorem stepRun (h : Finished m m') : Finished m (m'.stepRun o c rest) := by
  unfold Machine.stepRun
  split
  case h_1 => exact h.startToken
  case h_5 =>
    refine iteInduction (fun _ => h) fun _ => ?_
    refine iteInduction (fun _ => h.restyle _) fun _ => ?_
    exact iteInduction (fun _ => h.thenStart _) fun _ => h.leave
  case h_19 =>
    refine iteInduction (fun _ => h.update _) fun _ => ?_
    exact iteInduction (fun _ => (h.update _).leave) fun _ => h.update _
  all_goals first
    | exact h
    | exact h.leave
    | exact h.stepQuoted
    | exact iteInduction (fun _ => ((h.update _).hold _).thenStart _) fun _ => h
    | exact iteInduction (fun _ => h.leave) fun _ => h
    | exact iteInduction (fun _ => h) fun _ => h.closeRun

theorem look (m : Machine) : Finished m (m.look o c rest) := by
  unfold Machine.look
  refine iteInduction (fun _ => ?_) fun _ => (refl m).stepRun
  exact iteInduction (fun _ => (((refl m).update _).start _ _).stepRun) fun _ => (refl m).update _

end Finished

@[simp] theorem latest_release (text : List Char) (m : Machine) :
    (m.release text).latest = m.latest := by
  unfold release
  split <;> rfl

@[simp] theorem lines_release (text : List Char) (m : Machine) :
    (m.release text).lines = m.lines := by
  unfold release
  split <;> rfl

@[simp] theorem latest_take (m : Machine) :
    (m.take o c rest).latest = m.style :: m.latest := by
  rw [take, latest_release]
  rfl

theorem lines_take (m : Machine) :
    (m.take o c rest).lines =
      if lastOfLine c rest then (m.context.remember m.style c).lineData o :: m.lines
      else m.lines := by
  rw [take, lines_release]

theorem length_latest_step (m : Machine) :
    (m.step o c rest).latest.length = m.latest.length + 1 := by
  unfold step
  split
  · rw [latest_take, List.length_cons, (Finished.look m).styles]
  · rw [latest_take]
    rfl

/-- One line more, with a fold level when they are computed, where a line ends. -/
theorem lines_step (m : Machine) : ∃ line : LineData, line.fold.isSome = o.fold ∧
    (m.step o c rest).lines = if lastOfLine c rest then line :: m.lines else m.lines := by
  have fold (context : Context) : (context.lineData o).fold.isSome = o.fold := by
    unfold Context.lineData
    cases o.fold <;> rfl
  unfold step
  split
  · have taken := @lines_take o c rest (m.look o c rest)
    rw [(Finished.look m).lines] at taken
    exact ⟨_, fold _, taken⟩
  · exact ⟨_, fold _, lines_take _⟩

/-- A scan gives one style to every character. -/
theorem length_latest_run {n : Nat} {text : List Char} (le : n ≤ text.length) (m : Machine) :
    (m.run o n text).latest.length = m.latest.length + n := by
  induction n generalizing text m with
  | zero => rfl
  | succ n ih =>
    cases text with
    | nil => simp at le
    | cons c rest =>
      rw [run, ih (by simpa using le), length_latest_step]
      omega

/-- A scan finishes the lines that end within its range. -/
theorem lines_run (n : Nat) (text : List Char) (m : Machine) :
    ∃ lines : List LineData, (m.run o n text).lines = lines ++ m.lines ∧
      lines.length = finishedLines n text ∧ ∀ line ∈ lines, line.fold.isSome = o.fold := by
  induction n generalizing text m with
  | zero => exact ⟨[], rfl, rfl, by simp⟩
  | succ n ih =>
    cases text with
    | nil => exact ⟨[], rfl, rfl, by simp⟩
    | cons c rest =>
      obtain ⟨line, fold, first⟩ := @lines_step o c rest m
      obtain ⟨lines, cut, count, folds⟩ := ih rest (m.step o c rest)
      rw [run, cut, first, finishedLines_cons]
      split
      · refine ⟨lines ++ [line], by simp, by simp [count], fun other member => ?_⟩
        rcases List.mem_append.mp member with earlier | last
        · exact folds other earlier
        · rw [List.mem_singleton.mp last, fold]
      · exact ⟨lines, rfl, by simp [count], folds⟩

theorem run_add (a b : Nat) (text : List Char) (m : Machine) :
    m.run o (a + b) text = (m.run o a text).run o b (text.drop a) := by
  induction a generalizing text m with
  | zero => simp [run]
  | succ a ih =>
    rw [Nat.succ_add]
    cases text with
    | nil => cases b <;> rfl
    | cons c rest => exact ih rest _

theorem run_front_add (front text : List Char) (n : Nat) (m : Machine) :
    m.run o (front.length + n) (front ++ text) =
      (m.run o front.length (front ++ text)).run o n text := by
  rw [run_add, List.drop_left]

/-! ### The end of a range -/

@[simp] theorem latest_finish (m : Machine) : m.finish.latest = m.latest := by
  rw [finish, latest_release]
  rfl

@[simp] theorem lines_finish (m : Machine) : m.finish.lines = m.lines := by
  rw [finish, lines_release]

theorem style_finish (m : Machine) : m.finish.style = m.after.getD m.style := by
  unfold finish release
  cases m.after <;> rfl

theorem styles_eq (m : Machine) : m.styles = m.latest.reverse := rfl

end Machine

end CssHighlight
