import Mathlib.Data.List.Induction
import CssHighlight.Proofs.PathText

/-!
# Where steps lead

A walk keeps a budget of links and a list of steps that grows with every link. Here it is described
without either: `Leads` relates two places that steps connect, and tells how many links there are on
the way. The steps of a link's target lead to a place of their own, from which the walk goes on.
-/
namespace CssHighlight

namespace FileTree

/-- A tree in which every entry lies in a directory and has a proper name. -/
structure WellFormed (tree : FileTree) : Prop where
  above {place : List String} {name : String} {entry : Entry}
    (held : tree.entry? (place ++ [name]) = some entry) : tree.entry? place = some .directory
  isName {place : List String} {name : String} {entry : Entry}
    (held : tree.entry? (place ++ [name]) = some entry) : IsName name
  noNull {place : List String} {target : String}
    (held : tree.entry? place = some (.link target)) : '\x00' ∉ target.toList

/-- There is an entry in a place, and it is no link. -/
def Stands (tree : FileTree) (place : List String) (entry : Entry) : Prop :=
  tree.entry? place = some entry ∧ ∀ target, entry ≠ .link target

/-- Where the target of a link is read from. -/
def base (above : List String) (target : String) : List String :=
  if Path.isRooted target then [] else above

/-- Steps lead from a place to another, with so many links on the way. -/
inductive Leads (tree : FileTree) : Nat → List String → List String → List String → Prop
  | done {here} : Leads tree 0 here [] here
  | stay {n here step rest there} (dot : step = ".")
      (inside : tree.entry? here = some .directory)
      (further : Leads tree n here rest there) : Leads tree n here (step :: rest) there
  | back {n here step rest there} (dots : step = "..")
      (inside : tree.entry? here = some .directory)
      (further : Leads tree n here.dropLast rest there) : Leads tree n here (step :: rest) there
  | enter {n here name rest there entry} (inside : tree.entry? here = some .directory)
      (noDot : name ≠ ".") (noDots : name ≠ "..") (stands : tree.Stands (here ++ [name]) entry)
      (further : Leads tree n (here ++ [name]) rest there) : Leads tree n here (name :: rest) there
  | follow {n m here name target between rest there} (inside : tree.entry? here = some .directory)
      (noDot : name ≠ ".") (noDots : name ≠ "..")
      (link : tree.entry? (here ++ [name]) = some (.link target))
      (reached : Leads tree n (base here target) (stepsOf target) between)
      (further : Leads tree m between rest there) : Leads tree (n + m + 1) here (name :: rest) there

variable {tree : FileTree} {n m : Nat} {here there place above steps first rest idle : List String}
  {name : String} {entry : Entry}

theorem Stands.unlinked {target : String} (stands : tree.Stands here entry)
    (link : tree.entry? here = some (.link target)) : False :=
  stands.2 target (Option.some.inj (stands.1.symm.trans link))

theorem stands_directory (inside : tree.entry? here = some .directory) :
    tree.Stands here .directory :=
  ⟨inside, fun _ same => by cases same⟩

/-- A directory lies in a directory. The root lies in itself. -/
theorem WellFormed.dropLast (wf : tree.WellFormed) (held : tree.entry? here = some entry) :
    tree.entry? here.dropLast = some .directory := by
  rcases List.eq_nil_or_concat' here with rfl | ⟨above, name, rfl⟩
  · rfl
  · rw [List.dropLast_concat]
    exact wf.above held

/-- Everything above an entry is a directory. -/
theorem WellFormed.take (wf : tree.WellFormed) (held : tree.entry? place = some entry) {n : Nat}
    (higher : n < place.length) : tree.entry? (place.take n) = some .directory := by
  induction place using List.reverseRecOn generalizing entry with
  | nil => simp at higher
  | append_singleton above name ih =>
    have inside := wf.above held
    rw [List.length_append, List.length_singleton] at higher
    rw [List.take_append_of_le_length (by omega)]
    by_cases last : n = above.length
    · rwa [last, List.take_length]
    · exact ih inside (by omega)

theorem WellFormed.of_prefix (wf : tree.WellFormed) (inside : tree.entry? place = some .directory)
    (higher : above <+: place) : tree.entry? above = some .directory := by
  rcases Nat.lt_or_eq_of_le higher.length_le with shorter | same
  · rw [List.prefix_iff_eq_take.mp higher]
    exact wf.take inside shorter
  · rwa [higher.eq_of_length same]

theorem Stands.of_prefix (wf : tree.WellFormed) (stands : tree.Stands place entry)
    (higher : above <+: place) : ∃ entry, tree.Stands above entry := by
  rcases Nat.lt_or_eq_of_le higher.length_le with shorter | same
  · rw [List.prefix_iff_eq_take.mp higher]
    exact ⟨_, stands_directory (wf.take stands.1 shorter)⟩
  · exact ⟨entry, higher.eq_of_length same ▸ stands⟩

namespace Leads

/-- Steps that come one after the other lead on from the place between them. -/
theorem split (leads : Leads tree n here (first ++ rest) there) :
    ∃ n₁ n₂ between, n = n₁ + n₂ ∧ Leads tree n₁ here first between ∧
      Leads tree n₂ between rest there := by
  induction first generalizing n here with
  | nil => exact ⟨0, n, here, (Nat.zero_add n).symm, .done, leads⟩
  | cons step first ih =>
    cases leads with
    | stay dot inside further =>
      obtain ⟨n₁, n₂, between, rfl, before, behind⟩ := ih further
      exact ⟨n₁, n₂, between, rfl, .stay dot inside before, behind⟩
    | back dots inside further =>
      obtain ⟨n₁, n₂, between, rfl, before, behind⟩ := ih further
      exact ⟨n₁, n₂, between, rfl, .back dots inside before, behind⟩
    | enter inside noDot noDots stands further =>
      obtain ⟨n₁, n₂, between, rfl, before, behind⟩ := ih further
      exact ⟨n₁, n₂, between, rfl, .enter inside noDot noDots stands before, behind⟩
    | @follow k _ _ _ _ _ _ _ inside noDot noDots link reached further =>
      obtain ⟨n₁, n₂, between, rfl, before, behind⟩ := ih further
      exact ⟨k + n₁ + 1, n₂, between, by omega, .follow inside noDot noDots link reached before,
        behind⟩

/-- Steps lead to one place only, and past the same links. -/
theorem unique {there' : List String} (leads : Leads tree n here steps there)
    (leads' : Leads tree m here steps there') : n = m ∧ there = there' := by
  induction leads generalizing m there' with
  | done =>
    cases leads'
    exact ⟨rfl, rfl⟩
  | stay dot _ _ ih =>
    cases leads' with
    | stay _ _ further => exact ih further
    | back dots => exact absurd (dot.symm.trans dots) (by decide)
    | enter _ noDot => exact absurd dot noDot
    | follow _ noDot => exact absurd dot noDot
  | back dots _ _ ih =>
    cases leads' with
    | stay dot => exact absurd (dot.symm.trans dots) (by decide)
    | back _ _ further => exact ih further
    | enter _ _ noDots => exact absurd dots noDots
    | follow _ _ noDots => exact absurd dots noDots
  | enter _ noDot noDots stands _ ih =>
    cases leads' with
    | stay dot => exact absurd dot noDot
    | back dots => exact absurd dots noDots
    | enter _ _ _ _ further => exact ih further
    | follow _ _ _ link => exact (stands.unlinked link).elim
  | follow _ noDot noDots link _ _ ihReached ihFurther =>
    cases leads' with
    | stay dot => exact absurd dot noDot
    | back dots => exact absurd dots noDots
    | enter _ _ _ stands => exact (stands.unlinked link).elim
    | follow _ _ _ link' reached' further' =>
      cases link.symm.trans link'
      obtain ⟨rfl, rfl⟩ := ihReached reached'
      obtain ⟨rfl, rfl⟩ := ihFurther further'
      exact ⟨rfl, rfl⟩

/-- Steps that lead nowhere else can be left out. -/
theorem of_idle (wf : tree.WellFormed) (stays : ∀ step ∈ idle, step = "" ∨ step = ".")
    (leads : Leads tree n here (idle ++ rest) there) : Leads tree n here rest there := by
  induction idle with
  | nil => exact leads
  | cons step idle ih =>
    -- No entry is named like an idle step, so the step stays where it is.
    have later := ih fun other member => stays other (List.mem_cons_of_mem _ member)
    cases leads with
    | stay _ _ further => exact later further
    | back dots =>
      rcases stays step List.mem_cons_self with none | dot
      · exact absurd (dots.symm.trans none) (by decide)
      · exact absurd (dots.symm.trans dot) (by decide)
    | enter _ noDot _ stands =>
      rcases stays step List.mem_cons_self with none | dot
      · exact absurd none (wf.isName stands.1).given
      · exact absurd dot noDot
    | follow _ noDot _ link =>
      rcases stays step List.mem_cons_self with none | dot
      · exact absurd none (wf.isName link).given
      · exact absurd dot noDot

/-- Steps from something that is no link lead to something that is none. -/
theorem stands (wf : tree.WellFormed) (leads : Leads tree n here steps there)
    (start : ∃ entry, tree.Stands here entry) : ∃ entry, tree.Stands there entry := by
  induction leads with
  | done => exact start
  | stay _ _ _ ih => exact ih start
  | back _ inside _ ih => exact ih ⟨_, stands_directory (wf.dropLast inside)⟩
  | enter _ _ _ stands _ ih => exact ih ⟨_, stands⟩
  | @follow _ _ here _ target _ _ _ inside _ _ _ _ _ ihReached ihFurther =>
    refine ihFurther (ihReached ⟨_, stands_directory ?_⟩)
    rw [base]
    split
    · rfl
    · exact inside

end Leads

/-! ### Walks -/

section Walks

variable {links : Nat} {follow : Bool}
  {jump : List String → List String → Except SystemError (List String × Entry)}

/-- A walk leads where its steps lead, if it does so behind every link. -/
theorem leads_of_walkWith
    (behind : ∀ {here steps there entry}, jump here steps = .ok (there, entry) →
      ∃ n < links, Leads tree n here steps there)
    (walked : tree.walkWith true jump here steps = .ok (there, entry)) :
    ∃ n ≤ links, Leads tree n here steps there := by
  induction steps generalizing here with
  | nil =>
    rw [walkWith] at walked
    split at walked
    next held =>
      cases walked
      exact ⟨0, Nat.zero_le _, .done⟩
    next => cases walked
  | cons step rest ih =>
    rw [walkWith] at walked
    split at walked
    next inside =>
      split at walked
      next dot =>
        obtain ⟨n, few, leads⟩ := ih walked
        exact ⟨n, few, .stay dot inside leads⟩
      next noDot =>
        split at walked
        next dots =>
          obtain ⟨n, few, leads⟩ := ih walked
          exact ⟨n, few, .back dots inside leads⟩
        next noDots =>
          split at walked
          next => cases walked
          next =>
            split at walked
            next => cases walked
            next target link =>
              rw [if_neg (by simp)] at walked
              -- The walk goes on along the steps of the target and the rest in one list.
              obtain ⟨n, few, leads⟩ := behind walked
              obtain ⟨n₁, n₂, between, rfl, reached, further⟩ := leads.split
              exact ⟨n₁ + n₂ + 1, few, .follow inside noDot noDots link reached further⟩
            next other unlinked held =>
              obtain ⟨n, few, leads⟩ := ih walked
              exact ⟨n, few, .enter inside noDot noDots ⟨held, unlinked⟩ leads⟩
    next => cases walked
    next => cases walked

theorem leads_of_walk (walked : tree.walk true links here steps = .ok (there, entry)) :
    ∃ n ≤ links, Leads tree n here steps there := by
  induction links generalizing here steps there entry with
  | zero => exact leads_of_walkWith (fun blocked => by cases blocked) walked
  | succ links ih =>
    refine leads_of_walkWith (fun walked => ?_) walked
    obtain ⟨n, few, leads⟩ := ih walked
    exact ⟨n, Nat.lt_succ_of_le few, leads⟩

theorem entry?_of_walkWith
    (behind : ∀ {here steps there entry}, jump here steps = .ok (there, entry) →
      tree.entry? there = some entry)
    (walked : tree.walkWith follow jump here steps = .ok (there, entry)) :
    tree.entry? there = some entry := by
  induction steps generalizing here with
  | nil =>
    rw [walkWith] at walked
    split at walked
    next held =>
      cases walked
      exact held
    next => cases walked
  | cons step rest ih =>
    rw [walkWith] at walked
    split at walked
    next =>
      split at walked
      next => exact ih walked
      next =>
        split at walked
        next => exact ih walked
        next =>
          split at walked
          next => cases walked
          next =>
            split at walked
            next => cases walked
            next target link =>
              split at walked
              next =>
                cases walked
                exact link
              next => exact behind walked
            next => exact ih walked
    next => cases walked
    next => cases walked

/-- What a walk finds is the entry of the place where it ends. -/
theorem entry?_of_walk
    (walked : tree.walk follow links here steps = .ok (there, entry)) :
    tree.entry? there = some entry := by
  induction links generalizing here steps there entry with
  | zero => exact entry?_of_walkWith (fun blocked => by cases blocked) walked
  | succ links ih => exact entry?_of_walkWith (fun walked => ih walked) walked

end Walks

end FileTree

end CssHighlight
