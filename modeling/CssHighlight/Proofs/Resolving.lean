import Mathlib.Algebra.Order.BigOperators.Group.List
import Mathlib.Algebra.Order.Group.Nat
import Mathlib.Tactic.Ring
import CssHighlight.Proofs.Straight

/-!
# Resolved paths lead to the same place

A resolution works with paths, a walk with places. Both follow the same steps: wherever the walk
gets, the resolution gets by a straight path, and a link that it remembers stands for the place that
a walk through this link would reach again. It ends because a link on the way to its own target
would need more links than there are. What can keep it from its end is a path that becomes too long.
-/
namespace CssHighlight

namespace Place

variable {p : Place}

theorem child_inj {path path' : Path} {name name' : String} :
    path.child name = path'.child name' ↔ path = path' ∧ name = name' := by
  obtain ⟨root, names⟩ := path
  obtain ⟨root', names'⟩ := path'
  simp [Path.child, and_assoc]

theorem Straight.unique {path : Path} {place place' : List String} (wf : p.WellFormed)
    (straight : Straight p path place) (straight' : Straight p path place') : place = place' :=
  List.reverse_injective ((straight.foldl_names wf).symm.trans (straight'.foldl_names wf))

/-! ### What is remembered -/

/-- A link behind a straight path. -/
structure LinkAt (p : Place) (link : Path) (above : List String) (target : String) : Prop where
  behind : ∃ path name, link = path.child name ∧ Straight p path above ∧
    p.tree.entry? (above ++ [name]) = some (.link target)

theorem LinkAt.unique {link : Path} {above above' : List String} {target target' : String}
    (wf : p.WellFormed) (at_ : LinkAt p link above target) (at' : LinkAt p link above' target') :
    above = above' ∧ target = target' := by
  obtain ⟨path, name, rfl, straight, held⟩ := at_
  obtain ⟨path', name', same, straight', held'⟩ := at'
  obtain ⟨rfl, rfl⟩ := child_inj.mp same
  obtain rfl := straight.unique wf straight'
  cases held.symm.trans held'
  exact ⟨rfl, rfl⟩

/-- What is remembered of a link is where a walk through it gets. -/
def Recalls (p : Place) (seen : List (Path × Option Path)) : Prop :=
  ∀ link above target known, LinkAt p link above target →
    seen.lookup link = some (some known) → ∃ n there,
      p.tree.Leads n (FileTree.base above target) (FileTree.stepsOf target) there ∧
        Straight p known there

/-- Behind a link whose target is still being looked for there are at least so many links. -/
def Pends (p : Place) (seen : List (Path × Option Path)) (n : Nat) : Prop :=
  ∀ link above target m there, LinkAt p link above target → seen.lookup link = some none →
    p.tree.Leads m (FileTree.base above target) (FileTree.stepsOf target) there → n ≤ m

/-- The links that are looked for in the one list are looked for in the other as well. -/
def NoMorePending (seen seen' : List (Path × Option Path)) : Prop :=
  ∀ link, seen'.lookup link = some none → seen.lookup link = some none

section Memory

variable {seen seen' : List (Path × Option Path)} {n m : Nat} {link known : Path}
  {above there : List String} {target : String}

theorem Pends.mono (pends : Pends p seen n) (fewer : m ≤ n) : Pends p seen m :=
  fun _ _ _ _ _ at_ looked leads => Nat.le_trans fewer (pends _ _ _ _ _ at_ looked leads)

theorem Pends.after (pends : Pends p seen n) (none : NoMorePending seen seen') :
    Pends p seen' n :=
  fun _ _ _ _ _ at_ looked leads => pends _ _ _ _ _ at_ (none _ looked) leads

theorem recalls_begin (recalls : Recalls p seen) : Recalls p ((link, none) :: seen) := by
  intro other above target known at_ looked
  rw [List.lookup_cons] at looked
  split at looked
  · cases looked
  · exact recalls _ _ _ _ at_ looked

theorem pends_begin (wf : p.WellFormed) (at_ : LinkAt p link above target) (pends : Pends p seen n)
    (leads : p.tree.Leads n (FileTree.base above target) (FileTree.stepsOf target) there) :
    Pends p ((link, none) :: seen) n := by
  intro other above' target' m there' at' looked leads'
  rw [List.lookup_cons] at looked
  split at looked
  next same =>
    obtain rfl := eq_of_beq same
    obtain ⟨rfl, rfl⟩ := at_.unique wf at'
    exact Nat.le_of_eq (leads.unique leads').1
  next => exact pends _ _ _ _ _ at' looked leads'

theorem recalls_end (wf : p.WellFormed) (at_ : LinkAt p link above target)
    (recalls : Recalls p seen) (straight : Straight p known there)
    (leads : p.tree.Leads n (FileTree.base above target) (FileTree.stepsOf target) there) :
    Recalls p ((link, some known) :: seen) := by
  intro other above' target' known' at' looked
  rw [List.lookup_cons] at looked
  split at looked
  next same =>
    obtain rfl := eq_of_beq same
    obtain ⟨rfl, rfl⟩ := at_.unique wf at'
    cases looked
    exact ⟨n, there, leads, straight⟩
  next => exact recalls _ _ _ _ at' looked

/-- A link is no longer looked for when its target is known. -/
theorem noMorePending_end (none : NoMorePending ((link, Option.none) :: seen) seen') :
    NoMorePending seen ((link, some known) :: seen') := by
  intro other looked
  rw [List.lookup_cons] at looked
  split at looked
  next => cases looked
  next different =>
    have before := none other looked
    rwa [List.lookup_cons, different] at before

end Memory

/-! ### A resolution follows the steps -/

section Steps

variable {n fuel room : Nat} {path : Path} {place there steps : List String} {names : List String}
  {seen : List (Path × Option Path)} {rest : List PathStep}

theorem target_fits {target : String} (held : p.tree.entry? place = some (.link target)) :
    target.length + 2 ≤ p.linkSteps := by
  rw [FileTree.entry?] at held
  split at held
  · cases held
  · obtain ⟨entry, found, link⟩ := Option.map_eq_some_iff.mp held
    have member := List.mem_of_find?_eq_some found
    have steps : entry.2.targetSteps = target.length + 2 := by rw [link]; rfl
    have total : p.linkSteps = (p.tree.entries.map fun entry => entry.2.targetSteps).sum := by
      rw [linkSteps, List.sum_eq_foldr, List.foldr_map]
    rw [total, ← steps]
    exact List.le_sum_of_mem (List.mem_map_of_mem member)

section Equations

variable {strict : Bool} {name : String} {entry : Entry} {target : String}

theorem resolveSteps_idle (idle : name = "" ∨ name = ".") :
    p.resolveSteps strict (fuel + 1) path seen (.enter name :: rest) =
      p.resolveSteps strict fuel path seen rest := by
  rw [resolveSteps, if_pos idle]

theorem resolveSteps_up (dots : name = "..") :
    p.resolveSteps strict (fuel + 1) path seen (.enter name :: rest) =
      p.resolveSteps strict fuel path.up seen rest := by
  rw [resolveSteps, if_neg (by subst dots; decide), if_pos dots]

theorem resolveSteps_long {spot : String} (busy : ¬(name = "" ∨ name = ".")) (noDots : name ≠ "..")
    (looked : p.linkStat (path.child name).toText = .error (.system .nameTooLong spot)) :
    p.resolveSteps true (fuel + 1) path seen (.enter name :: rest) =
      .error (.system .nameTooLong spot) := by
  rw [resolveSteps, if_neg busy, if_neg noDots]
  simp only [looked, if_true]

theorem resolveSteps_unknown {cause : SystemError} {spot : String}
    (busy : ¬(name = "" ∨ name = ".")) (noDots : name ≠ "..")
    (looked : p.linkStat (path.child name).toText = .error (.system cause spot)) :
    p.resolveSteps false (fuel + 1) path seen (.enter name :: rest) =
      p.resolveSteps false fuel (path.child name) seen rest := by
  rw [resolveSteps, if_neg busy, if_neg noDots]
  simp only [looked]
  rfl

theorem resolveSteps_pass (busy : ¬(name = "" ∨ name = ".")) (noDots : name ≠ "..")
    (looked : p.linkStat (path.child name).toText = .ok entry)
    (unlinked : ∀ target, entry ≠ .link target) :
    p.resolveSteps strict (fuel + 1) path seen (.enter name :: rest) =
      p.resolveSteps strict fuel (path.child name) seen rest := by
  rw [resolveSteps, if_neg busy, if_neg noDots]
  cases entry with
  | link target => exact absurd rfl (unlinked target)
  | file => simp only [looked]
  | directory => simp only [looked]

theorem resolveSteps_link (busy : ¬(name = "" ∨ name = ".")) (noDots : name ≠ "..")
    (looked : p.linkStat (path.child name).toText = .ok (.link target)) :
    p.resolveSteps strict (fuel + 1) path seen (.enter name :: rest) =
      match seen.lookup (path.child name) with
      | some (some known) => p.resolveSteps strict fuel known seen rest
      | some none =>
        if strict then .error (p.loopError (path.child name).toText)
        else .ok (PathStep.keep (path.child name) [] rest)
      | none =>
        if p.stack ≤ PathStep.pending rest then .error .tooDeep
        else
          p.resolveSteps strict fuel (if Path.isRooted target then ⟨"/", []⟩ else path)
            ((path.child name, none) :: seen)
            (PathStep.ofTarget target ++ .resolved (path.child name) :: rest) := by
  rw [resolveSteps, if_neg busy, if_neg noDots]
  cases held : seen.lookup (path.child name) with
  | none => simp only [looked, held]
  | some known => cases known <;> simp only [looked, held]

theorem resolveSteps_known {known : Path} (busy : ¬(name = "" ∨ name = ".")) (noDots : name ≠ "..")
    (looked : p.linkStat (path.child name).toText = .ok (.link target))
    (remembered : seen.lookup (path.child name) = some (some known)) :
    p.resolveSteps strict (fuel + 1) path seen (.enter name :: rest) =
      p.resolveSteps strict fuel known seen rest := by
  rw [resolveSteps_link busy noDots looked, remembered]

theorem resolveSteps_begin (busy : ¬(name = "" ∨ name = ".")) (noDots : name ≠ "..")
    (looked : p.linkStat (path.child name).toText = .ok (.link target))
    (remembered : seen.lookup (path.child name) = none)
    (spare : PathStep.pending rest < p.stack) :
    p.resolveSteps strict (fuel + 1) path seen (.enter name :: rest) =
      p.resolveSteps strict fuel (if Path.isRooted target then ⟨"/", []⟩ else path)
        ((path.child name, none) :: seen)
        (PathStep.ofTarget target ++ .resolved (path.child name) :: rest) := by
  rw [resolveSteps_link busy noDots looked, remembered]
  exact if_neg (Nat.not_le.mpr spare)

end Equations

@[simp] theorem pending_enter_append :
    PathStep.pending (names.map .enter ++ rest) = PathStep.pending rest := by
  induction names with
  | nil => rfl
  | cons name names ih => exact ih

/-- A resolution that is given steps which lead to a place either gets to a straight path there, or
meets a path that is too long. -/
def Arrives (p : Place) (fuel : Nat) (path : Path) (seen : List (Path × Option Path))
    (steps rest : List PathStep) (there : List String) (room : Nat) : Prop :=
  (∃ spot, p.resolveSteps true fuel path seen (steps ++ rest) =
    .error (.system .nameTooLong spot)) ∨
  ∃ fuel' path' seen', room ≤ fuel' ∧ Straight p path' there ∧ Recalls p seen' ∧
    NoMorePending seen seen' ∧
    p.resolveSteps true fuel path seen (steps ++ rest) = p.resolveSteps true fuel' path' seen' rest

/-- An arrival is one from further back as well. -/
theorem Arrives.from {fuel' : Nat} {path' : Path} {seen' : List (Path × Option Path)}
    {before before' : List PathStep} (none : NoMorePending seen seen')
    (step : p.resolveSteps true fuel path seen (before ++ rest) =
      p.resolveSteps true fuel' path' seen' (before' ++ rest))
    (arrives : Arrives p fuel' path' seen' before' rest there room) :
    Arrives p fuel path seen before rest there room := by
  rcases arrives with ⟨spot, long⟩ | ⟨last, final, found, left, straight, recalls, fewer, run⟩
  · exact .inl ⟨spot, step.trans long⟩
  · exact .inr ⟨last, final, found, left, straight, recalls,
      fun link looked => none link (fewer link looked), step.trans run⟩

theorem moves_cons {name : String} (idle : name = "" ∨ name = ".") :
    moves (name :: names) = moves names := by
  rcases idle with rfl | rfl <;> rfl

/-- A step that leads elsewhere comes behind some that do not. -/
theorem Leads.of_moves {name : String} (wf : p.WellFormed) (busy : ¬(name = "" ∨ name = "."))
    (leads : p.tree.Leads n place steps there) (same : moves steps = moves (name :: names)) :
    ∃ later, p.tree.Leads n place (name :: later) there ∧ moves later = moves names := by
  have first : moves (name :: names) = name :: moves names := by
    rw [moves, List.filter_cons_of_pos (by simpa [not_or] using busy)]
    rfl
  rw [first, moves, List.filter_eq_cons_iff] at same
  obtain ⟨idle, later, rfl, stays, -, further⟩ := same
  refine ⟨later, leads.of_idle wf.tree fun step member => ?_, further⟩
  have := stays step member
  simp only [decide_eq_true_eq, not_and_or, not_not] at this
  exact this

/-- An arrival behind a link: first at the place of its target, then, with the link known, on from
there. -/
theorem Arrives.through (between : List String) (room' : Nat) {link start : Path}
    {target : String} {fuel' : Nat} {before later : List PathStep}
    (step : p.resolveSteps true fuel path seen (before ++ rest) =
      p.resolveSteps true fuel' start ((link, none) :: seen)
        (PathStep.ofTarget target ++ .resolved link :: (later ++ rest)))
    (inner : Arrives p fuel' start ((link, none) :: seen) (PathStep.ofTarget target)
      (.resolved link :: (later ++ rest)) between (room' + 1))
    (outer : ∀ fuel known seen', room' ≤ fuel → Straight p known between → Recalls p seen' →
      NoMorePending ((link, none) :: seen) seen' →
        Arrives p fuel known ((link, some known) :: seen') later rest there room) :
    Arrives p fuel path seen before rest there room := by
  rcases inner with ⟨spot, long⟩ | ⟨last, known, seen', left, straight, recalls, fewer, run⟩
  · exact .inl ⟨spot, step.trans long⟩
  · obtain ⟨last, rfl⟩ := Nat.exists_eq_add_of_le' (Nat.le_trans (Nat.le_add_left 1 _) left)
    exact .from (noMorePending_end fewer) (step.trans run)
      (outer last known seen' (by omega) straight recalls fewer)

theorem straight_base {target : String} (straight : Straight p path place) :
    Straight p (if Path.isRooted target then ⟨"/", []⟩ else path) (FileTree.base place target) := by
  rw [FileTree.base]
  split
  · exact .root
  · exact straight

/-- With fuel for the targets of its links, and calls for as many of them as are pending at once, a
resolution of names that lead along so many links arrives. -/
def Settles (p : Place) (n : Nat) : Prop :=
  ∀ (fuel room : Nat) {path : Path} {place there steps names : List String}
    {seen : List (Path × Option Path)} (rest : List PathStep), Straight p path place →
    p.tree.Leads n place steps there → moves steps = moves names → Recalls p seen →
    Pends p seen n → PathStep.pending rest + n ≤ p.stack →
    names.length + n * p.linkSteps + room ≤ fuel →
      Arrives p fuel path seen (names.map .enter) rest there room

/-- A link is known, or it is followed to its target and then on from there. -/
theorem Arrives.follow {m : Nat} {name target : String} {between later : List String}
    (wf : p.WellFormed) (fewer : ∀ k < n + m + 1, Settles p k) (straight : Straight p path place)
    (busy : ¬(name = "" ∨ name = ".")) (noDots : name ≠ "..")
    (inside : p.tree.entry? place = some .directory)
    (link : p.tree.entry? (place ++ [name]) = some (.link target))
    (reached : p.tree.Leads n (FileTree.base place target) (FileTree.stepsOf target) between)
    (further : p.tree.Leads m between later there) (same : moves later = moves names)
    (recalls : Recalls p seen) (pends : Pends p seen (n + m + 1))
    (spare : PathStep.pending rest + (n + m + 1) ≤ p.stack)
    (enough : names.length + (n + m + 1) * p.linkSteps + room ≤ fuel) :
    Arrives p (fuel + 1) path seen ((name :: names).map .enter) rest there room := by
  have looked := straight.linkStat wf inside link
  split at looked
  next long => exact .inl ⟨_, resolveSteps_long busy noDots looked⟩
  next =>
    have atLink : LinkAt p (path.child name) place target := ⟨path, name, rfl, straight, link⟩
    have counted : (n + m + 1) * p.linkSteps =
        n * p.linkSteps + m * p.linkSteps + p.linkSteps := by ring
    cases remembered : seen.lookup (path.child name) with
    | some found =>
      cases found with
      | some known =>
        obtain ⟨n', there', leads', straight'⟩ := recalls _ _ _ _ atLink remembered
        obtain ⟨-, rfl⟩ := reached.unique leads'
        exact .from (fun _ same => same) (resolveSteps_known busy noDots looked remembered)
          (fewer m (by omega) fuel room rest straight' further same recalls
            (pends.mono (by omega)) (by omega) (by omega))
      | none =>
        -- The way to the target of this link would need all its links once more.
        have := pends _ _ _ _ _ atLink remembered reached
        omega
    | none =>
      obtain ⟨targetNames, targetSteps, short, -, sameTarget⟩ := ofTarget_eq target
      have fits := target_fits link
      have more : PathStep.pending (names.map .enter ++ rest) < p.stack := by
        rw [pending_enter_append]
        omega
      refine .through between (names.length + m * p.linkSteps + room)
        (resolveSteps_begin busy noDots looked remembered more) ?_ ?_
      · rw [targetSteps]
        exact fewer n (by omega) fuel _ _ (straight_base straight) reached sameTarget
          (recalls_begin recalls) (pends_begin wf atLink (pends.mono (by omega)) reached)
          (by rw [PathStep.pending, pending_enter_append]; omega) (by omega)
      · intro fuel known seen' left straight' recalls' none
        exact fewer m (by omega) fuel room rest straight' further same
          (recalls_end wf atLink recalls' straight' reached)
          ((pends.after (noMorePending_end none)).mono (by omega)) (by omega) left

/-- The induction is on the number of links, and among as many links on the names that are left. -/
theorem settles (wf : p.WellFormed) (n : Nat) : Settles p n := by
  induction n using Nat.strong_induction_on with
  | _ n fewer =>
  intro fuel room path place there steps names seen rest straight leads same recalls pends spare
    enough
  induction names generalizing path place steps seen fuel with
  | nil =>
    have idle : ∀ step ∈ steps, step = "" ∨ step = "." := by
      intro step member
      have := List.filter_eq_nil_iff.mp same step member
      simp only [decide_eq_true_eq, not_and_or, not_not] at this
      exact this
    rw [← List.append_nil steps] at leads
    cases leads.of_idle wf.tree idle with
    | done =>
      exact .inr ⟨fuel, path, seen, by simpa using enough, straight, recalls,
        fun _ same => same, rfl⟩
  | cons name names ih =>
    cases fuel with
    | zero => simp at enough
    | succ fuel =>
      rw [List.length_cons] at enough
      by_cases idle : name = "" ∨ name = "."
      · exact .from (fun _ same => same) (resolveSteps_idle idle) (ih fuel straight leads
          (same.trans (moves_cons idle)) recalls pends (by omega))
      · obtain ⟨later, leads, same⟩ := Leads.of_moves wf idle leads same
        cases leads with
        | stay dot => exact absurd (.inr dot) idle
        | back dots inside further =>
          exact .from (fun _ same => same) (resolveSteps_up dots) (ih fuel (straight.up wf) further
            same recalls pends (by omega))
        | enter inside noDot noDots stands further =>
          have looked := straight.linkStat wf inside stands.1
          split at looked
          next long => exact .inl ⟨_, resolveSteps_long idle noDots looked⟩
          next =>
            exact .from (fun _ same => same) (resolveSteps_pass idle noDots looked stands.2)
              (ih fuel (straight.child inside stands) further same recalls pends (by omega))
        | follow inside noDot noDots link reached further =>
          exact .follow wf fewer straight idle noDots inside link reached further same recalls
            pends spare (by omega)

/-- Where a strict resolution gets, one that keeps what it does not know gets as well. -/
theorem resolveSteps_lenient {steps : List PathStep} {found : Path}
    (strict : p.resolveSteps true fuel path seen steps = .ok found) :
    p.resolveSteps false fuel path seen steps = .ok found := by
  fun_induction p.resolveSteps true fuel path seen steps
  case case2 => exact strict
  case case3 ih => exact ih strict
  case case4 idle ih =>
    rw [resolveSteps_idle idle]
    exact ih strict
  case case5 ih =>
    rw [resolveSteps_up rfl]
    exact ih strict
  case case9 busy noDots next target looked known remembered ih =>
    rw [resolveSteps_known busy noDots looked remembered]
    exact ih strict
  case case13 busy noDots next target looked fresh spare ih =>
    rw [resolveSteps_begin busy noDots looked fresh (Nat.not_le.mp spare)]
    exact ih strict
  case case14 busy noDots next entry unlinked looked ih =>
    rw [resolveSteps_pass busy noDots looked unlinked]
    exact ih strict
  -- What is left are errors, and the steps of a resolution that is not strict.
  case case8 loose _ | case11 loose => exact absurd rfl loose
  all_goals cases strict

/-- The path that a strict resolution finds is straight. -/
theorem resolveSteps_straight {steps : List PathStep} {found : Path} (wf : p.WellFormed)
    (straight : Straight p path place)
    (known : ∀ link known, seen.lookup link = some (some known) → ∃ there, Straight p known there)
    (noSlash : ∀ name, .enter name ∈ steps → '/' ∉ name.toList)
    (strict : p.resolveSteps true fuel path seen steps = .ok found) :
    ∃ there, Straight p found there := by
  fun_induction p.resolveSteps true fuel path seen steps generalizing place
  case case2 =>
    cases strict
    exact ⟨place, straight⟩
  case case3 path seen link rest ih =>
    refine ih straight (fun other known' looked => ?_)
      (fun name member => noSlash name (List.mem_cons_of_mem _ member)) strict
    rw [List.lookup_cons] at looked
    split at looked
    next =>
      cases looked
      exact ⟨place, straight⟩
    next => exact known other known' looked
  case case4 ih =>
    exact ih straight known (fun name member => noSlash name (List.mem_cons_of_mem _ member)) strict
  case case5 ih =>
    exact ih (straight.up wf) known
      (fun name member => noSlash name (List.mem_cons_of_mem _ member)) strict
  case case9 busy noDots next target looked known' remembered ih =>
    obtain ⟨there, straight'⟩ := known _ _ remembered
    exact ih straight' known
      (fun name member => noSlash name (List.mem_cons_of_mem _ member)) strict
  case case13 busy noDots next target looked fresh _ ih =>
    obtain ⟨names, steps, -, proper, -⟩ := ofTarget_eq target
    refine ih (straight_base straight) (fun other known' looked => ?_)
      (fun other member => ?_) strict
    · rw [List.lookup_cons] at looked
      split at looked
      next => cases looked
      next => exact known other known' looked
    · rw [steps] at member
      rcases List.mem_append.mp member with member | member
      · obtain ⟨step, found, same⟩ := List.mem_map.mp member
        cases same
        exact proper other found
      · rcases List.mem_cons.mp member with same | member
        · cases same
        · exact noSlash other (List.mem_cons_of_mem _ member)
  case case14 busy noDots next entry unlinked looked ih =>
    obtain ⟨noName, noDot⟩ := not_or.mp busy
    obtain ⟨inside, held⟩ := straight.linkStat_ok wf noName (noSlash _ List.mem_cons_self) noDot
      noDots looked
    exact ih (straight.child inside ⟨held, unlinked⟩) known
      (fun name member => noSlash name (List.mem_cons_of_mem _ member)) strict
  case case8 loose _ | case11 loose => exact absurd rfl loose
  all_goals cases strict

/-- A path without links is resolved to itself, even if it is too long to be looked up. -/
theorem resolveSteps_self (wf : p.WellFormed) (above names : List String) {entry : Entry}
    (stands : p.tree.Stands (above ++ names) entry) (enough : names.length < fuel) :
    p.resolveSteps false fuel ⟨"/", above⟩ seen (names.map .enter) =
      .ok ⟨"/", above ++ names⟩ := by
  induction names generalizing above fuel with
  | nil =>
    cases fuel with
    | zero => simp at enough
    | succ fuel => rw [List.append_nil, List.map_nil, resolveSteps]
  | cons name names ih =>
    cases fuel with
    | zero => simp at enough
    | succ fuel =>
      rw [List.append_cons] at stands ⊢
      have enough' : names.length < fuel := by simpa using enough
      obtain ⟨entry', here⟩ := stands.of_prefix wf.tree (List.prefix_append (above ++ [name]) names)
      have inside := wf.tree.above here.1
      have isName := wf.tree.isName here.1
      have busy : ¬(name = "" ∨ name = ".") := not_or.mpr ⟨isName.given, isName.noDot⟩
      have straight := straight_of_stands wf (FileTree.stands_directory inside)
      have looked := straight.linkStat wf inside here.1
      have step : p.resolveSteps false (fuel + 1) ⟨"/", above⟩ seen ((name :: names).map .enter) =
          p.resolveSteps false fuel ⟨"/", above ++ [name]⟩ seen (names.map .enter) := by
        split at looked
        next => exact resolveSteps_unknown busy isName.noDots looked
        next => exact resolveSteps_pass busy isName.noDots looked here.2
      exact step.trans (ih (above ++ [name]) stands enough')

end Steps

section Resolve

variable {path : Path} {there : List String} {entry : Entry}

theorem resolve_of_steps {strict : Bool} {found : Path} (wf : p.WellFormed)
    (run : p.resolveSteps strict (p.resolveFuel (path.names.map .enter))
      ⟨if path.isAbsolute then "/" else "", []⟩ [] (path.names.map .enter) = .ok found)
    (collapse : (Path.joinPath ⟨"/", p.directory⟩ found).collapse = ⟨"/", there⟩)
    (stands : p.tree.Stands there entry) : p.resolve strict path = .ok ⟨"/", there⟩ := by
  simp only [resolve, run, collapse]
  split
  next => rfl
  next =>
    have looked := (straight_of_stands wf stands).stat wf stands.1
    rw [looked]
    split
    next loop => split at loop <;> cases loop
    next => rfl

/-- A path that leads somewhere is resolved to the names of that place, unless a path that is too
long comes up on the way. -/
theorem resolve_of_lookUp (wf : p.WellFormed) {text : String}
    (looked : p.lookUp true text = .ok (there, entry)) :
    (∃ spot, p.resolve true (.ofText text) = .error (.system .nameTooLong spot)) ∨
      p.resolve true (.ofText text) = .ok ⟨"/", there⟩ := by
  have walked := (lookUp_ok looked).2.2
  rw [← isAbsolute_ofText] at walked
  obtain ⟨n, few, leads⟩ := FileTree.leads_of_walk walked
  have straight : Straight p ⟨if (Path.ofText text).isAbsolute then "/" else "", []⟩
      (if (Path.ofText text).isAbsolute then [] else p.directory) := by
    split
    · exact .root
    · exact .start
  have most : n * p.linkSteps ≤ maxPathBytes * p.linkSteps :=
    Nat.mul_le_mul_right _ (Nat.le_trans few (by decide))
  have recalls : Recalls p [] := fun _ _ _ _ _ none => by cases none
  have pends : Pends p [] n := fun _ _ _ _ _ _ none => by cases none
  have spare : PathStep.pending [] + n ≤ p.stack := by
    rw [PathStep.pending, Nat.zero_add]
    exact Nat.le_trans few p.spare
  rcases settles wf n (p.resolveFuel ((Path.ofText text).names.map .enter)) 1 [] straight leads
      (moves_ofText text) recalls pends spare (by rw [resolveFuel, List.length_map]; omega) with
    ⟨spot, long⟩ | ⟨fuel, found, seen, left, straight, -, -, run⟩
  · rw [List.append_nil] at long
    exact .inl ⟨spot, by rw [resolve, long]⟩
  · obtain ⟨fuel, rfl⟩ := Nat.exists_eq_add_of_le' left
    rw [List.append_nil, resolveSteps] at run
    exact .inr (resolve_of_steps wf run (straight.collapse wf) (lookUp_stands wf looked))

/-- A strict resolution to a place is right for one that keeps what it does not know. -/
theorem resolve_lenient (wf : p.WellFormed) (stands : p.tree.Stands there entry)
    (strict : p.resolve true path = .ok ⟨"/", there⟩) :
    p.resolve false path = .ok ⟨"/", there⟩ := by
  rw [resolve] at strict
  split at strict
  next => cases strict
  next => cases strict
  next found run =>
    exact resolve_of_steps wf (resolveSteps_lenient run) (Except.ok.inj strict) stands

/-- What a strict resolution finds is the names of a place, and there is something in it. -/
theorem resolve_ok (wf : p.WellFormed) (plain : path.IsPlain) {resolved : Path}
    (strict : p.resolve true path = .ok resolved) :
    ∃ there, resolved = ⟨"/", there⟩ ∧ ∃ entry, p.tree.Stands there entry := by
  rw [resolve] at strict
  split at strict
  next => cases strict
  next => cases strict
  next found run =>
    rw [if_pos rfl] at strict
    obtain ⟨place, begin⟩ :
        ∃ place, Straight p ⟨if path.isAbsolute then "/" else "", []⟩ place := by
      split
      · exact ⟨_, .root⟩
      · exact ⟨_, .start⟩
    obtain ⟨there, straight⟩ := resolveSteps_straight wf begin (fun _ _ none => by cases none)
      (fun name member => by
        obtain ⟨other, found, same⟩ := List.mem_map.mp member
        cases same
        exact plain.noSlash name found) run
    exact ⟨there, (Except.ok.inj strict).symm.trans (straight.collapse wf), straight.stands wf⟩

/-- The names of a place are resolved to themselves. -/
theorem resolve_self (wf : p.WellFormed) (stands : p.tree.Stands there entry) :
    p.resolve false ⟨"/", there⟩ = .ok ⟨"/", there⟩ := by
  have enough : there.length < p.resolveFuel (there.map .enter) := by
    rw [resolveFuel, List.length_map]
    omega
  exact resolve_of_steps wf (resolveSteps_self wf [] there stands enough)
    ((straight_of_stands wf stands).collapse wf) stands

end Resolve

end Place

end CssHighlight
