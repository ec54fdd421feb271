import ScriptLint.Proofs.CanonicalPaths

/-!
# Normal paths

A path that leads nowhere is compared by its text, without `.` and without each name that a `..` takes back. What
remains is settled: every `..` comes before all names. A settled path is kept as it is, and neither a `.` nor a name
with the `..` that takes it back makes a difference.
-/

namespace ScriptLint

open List
open FileSystem (IsName)

namespace Component

variable {components stack : List Component} {component : Component}

/-- A component that is read back from its text between slashes, where a `.` names nothing. -/
structure Plain (component : Component) : Prop where
  whole : '/' ∉ component.text.toList
  filled : component.text ≠ ""
  named : component ≠ here → Path.componentOf? component.text = some component

/-- What a text can name: the root only at the front. -/
structure Proper (components : List Component) : Prop where
  relative : root ∉ components.tail
  plain : ∀ component ∈ components, component ≠ root → component.Plain

theorem Proper.sublist {part : List Component} (proper : Proper components) (within : part <+ components) :
    Proper part :=
  ⟨fun found => proper.relative (within.tail.subset found),
    fun component found => proper.plain component (within.subset found)⟩

theorem Proper.insert {before after inserted : List Component} (proper : Proper (before ++ after))
    (relative : root ∉ after)
    (plain : ∀ component ∈ inserted, component ≠ root ∧ component.Plain) : Proper (before ++ (inserted ++ after)) := by
  obtain ⟨below, kept⟩ := proper
  constructor
  · cases before with
    | nil => grind [mem_of_mem_tail]
    | cons => grind
  · grind

/-- No `.` is left, and only names follow a name. -/
structure IsSettled (components : List Component) : Prop where
  kept : here ∉ components
  order : components.Pairwise fun earlier later => earlier.isName = true → later.isName = true

/-- A component is passed over, takes the name before it back, or is added. -/
theorem settle_cases (stack : List Component) (component : Component) :
    (component = here ∧ settle stack component = stack) ∨
    (component = up ∧ ∃ text, stack = name text :: settle stack component) ∨
    (component ≠ here ∧ (component = up → ∀ top ∈ stack.head?, top.isName = false) ∧
      settle stack component = component :: stack) := by
  cases component with
  | here => exact .inl ⟨rfl, rfl⟩
  | up =>
    cases stack with
    | nil => simp [settle]
    | cons top => cases top <;> simp [settle, isName]
  | _ => simp [settle]

/-- A `..` is added only where no name stands before it. -/
theorem IsSettled.concat (settled : IsSettled stack.reverse) (kept : component ≠ here)
    (first : component = root → stack = [])
    (stands : component = up → ∀ top ∈ stack.head?, top.isName = false) : IsSettled (component :: stack).reverse := by
  obtain ⟨others, order⟩ := settled
  rw [reverse_cons]
  refine ⟨by grind, pairwise_append.mpr ⟨order, pairwise_singleton _ _, ?_⟩⟩
  intro earlier found last member isName
  obtain rfl := mem_singleton.mp member
  cases last with
  | name => rfl
  | here => exact absurd rfl kept
  | root => simp [first rfl] at found
  | up =>
    cases stack with
    | nil => cases found
    | cons top =>
      have other := stands rfl top rfl
      grind

/-- Settling leaves components out and adds none. -/
theorem isSettled_foldl (proper : Proper (stack.reverse ++ components)) (settled : IsSettled stack.reverse) :
    IsSettled (components.foldl settle stack).reverse ∧
      (components.foldl settle stack).reverse <+ stack.reverse ++ components := by
  induction components generalizing stack with
  | nil => exact ⟨settled, sublist_append_left _ _⟩
  | cons component components ih =>
    have fewer : stack.reverse ++ components <+ stack.reverse ++ component :: components :=
      Sublist.append_left (sublist_cons_self _ _) _
    have later := proper.sublist fewer
    obtain ⟨rfl, same⟩ | ⟨rfl, text, taken⟩ | ⟨kept, stands, added⟩ := settle_cases stack component
    · rw [foldl_cons, same]
      exact (ih later settled).imp_right (·.trans fewer)
    · have less : (settle stack up).reverse <+ stack.reverse := by
        conv_rhs => rw [taken, reverse_cons]
        exact sublist_append_left _ _
      refine (ih (later.sublist (less.append_right _)) ?_).imp_right (·.trans ((less.append_right _).trans fewer))
      exact ⟨fun found => settled.kept (less.subset found), settled.order.sublist less⟩
    · rw [append_cons, ← reverse_cons] at proper ⊢
      rw [foldl_cons, added]
      refine ih proper (settled.concat kept ?_ stands)
      rintro rfl
      refine of_not_not fun filled => proper.relative ?_
      rw [reverse_cons, append_assoc, tail_append_of_ne_nil (mt reverse_eq_nil_iff.mp filled)]
      exact mem_append_right _ mem_cons_self

theorem foldl_settle (settled : IsSettled (stack.reverse ++ components)) :
    components.foldl settle stack = components.reverse ++ stack := by
  induction components generalizing stack with
  | nil => rfl
  | cons component components ih =>
    have added : settle stack component = component :: stack := by
      obtain ⟨rfl, _⟩ | ⟨rfl, text, taken⟩ | ⟨_, _, added⟩ := settle_cases stack component
      · exact absurd (mem_append_right _ mem_cons_self) settled.kept
      · have member : name text ∈ stack.reverse := mem_reverse.mpr (taken ▸ mem_cons_self)
        cases (pairwise_append.mp settled.order).2.2 _ member up mem_cons_self rfl
      · exact added
    rw [foldl_cons, added, ih (by rwa [reverse_cons, ← append_cons]), reverse_cons, append_assoc, singleton_append]

theorem normalize_of_isSettled (settled : IsSettled components) (filled : components ≠ []) :
    normalize components = components := by
  rw [normalize, foldl_settle (by rwa [reverse_nil, nil_append]), append_nil, reverse_reverse]
  cases components with
  | nil => exact absurd rfl filled
  | cons => rfl

/-- The normal form is settled, unless all is taken back. -/
theorem normalize_cases (proper : Proper components) :
    normalize components = [here] ∨
      normalize components ≠ [] ∧ IsSettled (normalize components) ∧ normalize components <+ components := by
  obtain ⟨settled, within⟩ := @isSettled_foldl components [] proper ⟨not_mem_nil, .nil⟩
  rw [normalize]
  cases order : (components.foldl settle []).reverse with
  | nil => exact .inl rfl
  | cons =>
    rw [order] at settled within
    exact .inr ⟨cons_ne_nil _ _, settled, within⟩

theorem normalize_filter (components before : List Component) :
    normalize (before ++ components.filter (· ≠ here)) = normalize (before ++ components) := by
  induction components generalizing before with
  | nil => rfl
  | cons component _ ih =>
    by_cases idle : component = here
    · rw [idle, filter_cons_of_neg (by simp), ih]
      simp only [normalize, foldl_append, foldl_cons, settle]
    · rw [filter_cons_of_pos (by simpa using idle), append_cons, ih, ← append_cons]

end Component

namespace Path

open Component

variable {components : List Component} {path : Path}

theorem filterMap_text (plain : ∀ component ∈ components, component.Plain) :
    (components.map Component.text).filterMap componentOf? = components.filter (· ≠ here) := by
  induction components with
  | nil => rfl
  | cons component _ ih =>
    obtain ⟨first, later⟩ := forall_mem_cons.mp plain
    by_cases idle : component = here
    · subst idle
      exact ih later
    · rw [map_cons, filterMap_cons_some (first.named idle), ih later, filter_cons_of_pos (by simpa using idle)]

theorem pieces_text (plain : ∀ component ∈ components, component.Plain) (filled : components ≠ []) :
    (Path.mk ("/".intercalate (components.map Component.text))).pieces = components.map Component.text :=
  pieces_joined (forall_mem_map.mpr fun component found => (plain component found).whole) (by simpa using filled)

theorem isAbsolute_of_pieces {first : String} {rest : List String} (pieces : path.pieces = first :: rest)
    (filled : first ≠ "") : path.isAbsolute = false := by
  refine Bool.eq_false_iff.mpr fun absolute => filled ?_
  obtain ⟨text⟩ := path
  obtain ⟨cs, front⟩ := head?_eq_some_iff.mp (beq_iff_eq.mp absolute)
  have same : text = "/" ++ String.ofList cs := String.toList_inj.mp (front.trans (by simp))
  rw [same, pieces_slash] at pieces
  exact (cons.inj pieces).1.symm

/-- A text made of components names them, a `.` behind the first left out. -/
theorem components_ofComponents {first : Component} (proper : Proper (first :: components)) :
    (ofComponents (first :: components)).components = first :: components.filter (· ≠ here) := by
  have plain : ∀ component ∈ components, component.Plain := fun component found =>
    proper.plain component (mem_cons_of_mem _ found) (ne_of_mem_of_not_mem found proper.relative)
  have named := filterMap_text plain
  by_cases absolute : first = root
  · subst absolute
    have later : (Path.mk ("/".intercalate (components.map Component.text))).pieces.filterMap componentOf? =
        components.filter (· ≠ here) := by
      by_cases filled : components = []
      · subst filled
        decide
      · rw [pieces_text plain filled, named]
    have isAbsolute : (Path.mk ("/" ++ "/".intercalate (components.map Component.text))).isAbsolute := by
      rw [Path.isAbsolute, String.toList_append]
      rfl
    rw [ofComponents, render, Path.components, isAbsolute, pieces_slash]
    exact congrArg _ later
  · have front := proper.plain first mem_cons_self absolute
    have pieces := pieces_text (forall_mem_cons.mpr ⟨front, plain⟩) (cons_ne_nil _ _)
    rw [ofComponents, render, Path.components, isAbsolute_of_pieces pieces front.filled, pieces, map_cons]
    · by_cases idle : first = here
      · subst idle
        exact congrArg _ named
      · have read := front.named idle
        split
        · contradiction
        · next same =>
          rw [(cons.inj same).1] at read
          cases read
        · rw [filterMap_cons_some read, named]
    · exact fun rest same => absolute (cons.inj same).1

theorem plain_here : here.Plain := ⟨by decide, by decide, fun other => absurd rfl other⟩

theorem plain_up : up.Plain := ⟨by decide, by decide, fun _ => rfl⟩

theorem plain_name {text : String} (isName : IsName text) : (name text).Plain := by
  obtain ⟨filled, notHere, notUp, whole⟩ := isName
  exact ⟨whole, filled, fun _ => by simp [componentOf?, Component.text, filled, notHere, notUp]⟩

theorem plain_of_componentOf? {component : Component} {piece : String} (found : piece ∈ path.pieces)
    (named : componentOf? piece = some component) : component ≠ root ∧ component.Plain := by
  have whole := not_mem_of_mem_pieces found
  rw [componentOf?] at named
  split at named
  · cases named
  · split at named
    · cases named
      exact ⟨by decide, plain_up⟩
    · cases named
      exact ⟨by simp, plain_name (by simp_all [IsName])⟩

theorem proper_components (path : Path) : Proper path.components := by
  have named {pieces : List String} (within : pieces ⊆ path.pieces) :
      ∀ component ∈ pieces.filterMap componentOf?, component ≠ root ∧ component.Plain := by
    intro component found
    obtain ⟨piece, member, named⟩ := mem_filterMap.mp found
    exact plain_of_componentOf? (within member) named
  rw [components]
  split
  · refine ⟨fun found => (named (Subset.refl _) _ found).1 rfl, forall_mem_cons.mpr ⟨fun other => absurd rfl other, ?_⟩⟩
    exact fun component found _ => (named (Subset.refl _) component found).2
  · next order =>
    have within := order ▸ subset_cons_self "." _
    exact ⟨fun found => (named within _ found).1 rfl,
      forall_mem_cons.mpr ⟨fun _ => plain_here, fun component found _ => (named within component found).2⟩⟩
  · exact ⟨fun found => (named (Subset.refl _) _ (mem_of_mem_tail found)).1 rfl,
      fun component found _ => (named (Subset.refl _) component found).2⟩

theorem normalize_ofComponents (proper : Proper components) :
    (ofComponents components).normalize = ofComponents (Component.normalize components) := by
  cases components with
  | nil => decide
  | cons first rest =>
    rw [normalize, components_ofComponents proper]
    exact congrArg ofComponents (normalize_filter rest [first])

theorem components_of_isSettled (proper : Proper components) (settled : IsSettled components)
    (filled : components ≠ []) :
    (ofComponents components).components = components := by
  cases components with
  | nil => exact absurd rfl filled
  | cons =>
    rw [components_ofComponents proper, filter_eq_self.mpr]
    intro component found
    simpa using ne_of_mem_of_not_mem (mem_cons_of_mem _ found) settled.kept

/-- The normal form of a path is settled and its own normal form, a settled path is its own, and neither a `.` nor a
name with the `..` that takes it back makes a difference, wherever it stands behind the root. -/
theorem normalize_canonical (path : Path) :
    (here ∈ path.normalize.components → path.normalize = ⟨"."⟩) ∧
    path.normalize.components.Pairwise (fun earlier later => earlier.isName = true → later ≠ up) ∧
    path.normalize.normalize = path.normalize ∧
    (path.components ≠ [] → IsSettled path.components → path.normalize.components = path.components) ∧
    ∀ before after, path.components = before ++ after → root ∉ after →
      (ofComponents (before ++ here :: after)).normalize = path.normalize ∧
      ∀ text, IsName text → (ofComponents (before ++ name text :: up :: after)).normalize = path.normalize := by
  have proper := proper_components path
  rw [and_assoc.symm, and_assoc.symm]
  refine ⟨?_, ?_, ?_⟩
  · obtain idle | ⟨filled, settled, within⟩ := normalize_cases proper
    · have same : path.normalize = ⟨"."⟩ := congrArg ofComponents idle
      rw [same]
      decide
    · have proper := proper.sublist within
      have known : path.normalize.components = Component.normalize path.components :=
        components_of_isSettled proper settled filled
      rw [known]
      refine ⟨⟨fun found => absurd found settled.kept, settled.order.imp ?_⟩, ?_⟩
      · rintro _ _ follows isName rfl
        cases follows isName
      · exact (normalize_ofComponents proper).trans (congrArg _ (normalize_of_isSettled settled filled))
  · intro filled settled
    rw [normalize, normalize_of_isSettled settled filled, components_of_isSettled proper settled filled]
  · intro before after split relative
    rw [split] at proper
    have same (inserted : List Component) (plain : ∀ component ∈ inserted, component ≠ root ∧ component.Plain)
        (idle : inserted.foldl settle (before.foldl settle []) = before.foldl settle []) :
        (ofComponents (before ++ (inserted ++ after))).normalize = path.normalize := by
      rw [normalize_ofComponents (proper.insert relative plain), normalize, split, Component.normalize, foldl_append,
        foldl_append, idle, ← foldl_append]
      rfl
    refine ⟨same [here] ?_ rfl, fun text isName => same [name text, up] ?_ rfl⟩
    · exact forall_mem_singleton.mpr ⟨by decide, plain_here⟩
    · simpa using ⟨plain_name isName, plain_up⟩

/-- A `.` and `x/..` written into `/../b/c`, which is settled. -/
theorem normalize_canonical_absolute :
    (Path.mk "/../b/c").normalize.components = [root, up, name "b", name "c"] ∧
    (Path.mk "/../b/./c").normalize = (Path.mk "/../b/c").normalize ∧
    (Path.mk "/../b/x/../c").normalize = (Path.mk "/../b/c").normalize :=
  have laws := (normalize_canonical (Path.mk "/../b/c")).2.2.2
  have inserted := laws.2 [root, up, name "b"] [name "c"] (by decide) (by decide)
  ⟨laws.1 (by decide) ⟨by decide, by decide⟩, inserted.1, inserted.2 "x" (by decide)⟩

end Path

end ScriptLint
