/-
  What elements are bound to after a full build.

  Elements come with namespaces and packages as texts, as nodes of an earlier build, or with nothing.
  **The theorem** (`Compiler.compile_resolves`): after a full build that ends well, every declared element
  is bound to a namespace, and every file and every declared element but an enum is bound to a package.
  Enums have no place in the packages, so theirs stay as they were.

  1. A step that binds an element, and ends well, leaves it bound (`bound_of_bindSpace`,
     `bound_of_bindPackage`), and no later step of the run takes that back (`forEach_bound`).
  2. So the elements that a tree is built from are bound to it (`bound_of_buildSpaces`,
     `bound_of_buildPackages`); the kinds of the elements do not matter here.
  3. The build of one tree leaves the bindings to the other alone, and those of all elements that it is
     not built from (`Store.Within`).
-/
import Docset.Proofs.Compile
import Docset.Proofs.Footprint

namespace Docset

open Build

variable {ε : Type} {d : SetId} {index : String} {tree : Tree} {e : ElementId} {n : NodeId}
  {s t : Store}

/-! ## Binding one element -/

theorem bound_of_bindAt (tree : Tree)
    (h : (do change (·.updateElement e (.bindTo tree n)); fileAt n e : Build BindError Unit) s =
      .ok () t) : (t.element e).boundTo tree = some n := by
  have hkind : ∀ x : Element, (x.bindTo tree n).kind = x.kind := fun x =>
    (congrArg Element.kind (Element.fixed_bindTo tree n x) :)
  obtain ⟨_, u, hchange, hfile⟩ := ok_of_bind h
  cases hchange
  rw [ok_of_bindAt hkind hfile, element_bindAt, if_pos rfl, Element.boundTo_bindTo, if_pos rfl]

theorem bound_of_bindSpace (h : bindSpace d index e s = .ok () t) :
    ((t.element e).boundTo .spaces).isSome = true := by
  rw [bindSpace] at h
  obtain ⟨_, _, -, h⟩ := ok_of_bind h
  obtain ⟨found, u, -, h⟩ := ok_of_bind h
  cases found with
  | some n =>
    obtain ⟨m, v, -, h⟩ := ok_of_bind h
    rw [bound_of_bindAt .spaces h]
    rfl
  | none =>
    obtain ⟨m, v, -, h⟩ := ok_of_bind h
    rw [bound_of_bindAt .spaces h]
    rfl

theorem bound_of_bindPackage (h : bindPackage d index e s = .ok () t) :
    ((t.element e).boundTo .packages).isSome = true := by
  rw [bindPackage] at h
  obtain ⟨_, _, -, h⟩ := ok_of_bind h
  obtain ⟨n, u, -, h⟩ := ok_of_bind h
  rw [bound_of_bindAt .packages h]
  rfl

/-! ## Runs -/

/-- What one step of a run binds, no later step unbinds. -/
theorem forEach_bound {names : List String} {es as : List ElementId} {step : ElementId → Build ε Unit}
    (has : as ⊆ es) (hwithin : ∀ e ∈ es, ∀ s, Build.Within d tree names es (step e) s)
    (hbinds : ∀ e s t, step e s = .ok () t → ((t.element e).boundTo tree).isSome = true) :
    ∀ s t, forEach step as s = .ok () t → ∀ e ∈ as, ((t.element e).boundTo tree).isSome = true := by
  induction as with
  | nil =>
    intro s t _ e he
    cases he
  | cons a rest ih =>
    intro s t h e he
    have hrest : rest ⊆ es := fun x hx => has (List.mem_cons_of_mem a hx)
    obtain ⟨_, u, hfirst, hlater⟩ := ok_of_bind h
    rcases List.mem_cons.1 he with rfl | he
    · have hkeeps : Build.Within d tree names es (forEach step rest) u :=
        .forEach (fun x hx => hwithin x (hrest hx)) u
      exact (hkeeps.of_ok hlater).bound e (hbinds e s u hfirst)
    · exact ih hrest u t hlater e he

/-- A set without source code has no files. -/
theorem Store.files_of_not_describesCode (h : ¬ s.DescribesCode d) : s.files d = .empty := by
  rw [Store.DescribesCode, Option.not_isSome_iff_eq_none] at h
  rw [Store.files, h]

/-- **Namespaces**: whatever is declared is bound to one. -/
theorem bound_of_buildSpaces (h : buildSpaces d s = .ok () t) (he : e ∈ s.declared d Tree.spaces.kinds) :
    ((t.element e).boundTo .spaces).isSome = true := by
  by_cases hcode : s.DescribesCode d
  · obtain ⟨_, u, hbind, apart, v, hlink, hlast⟩ :=
      (ensures_buildSpaces (Q := fun _ x => x = t) hcode).1 ⟨(), t, h, rfl⟩
    have hbound := forEach_bound (List.Subset.refl _) (fun x hx s => bindSpace_within hx s)
      (fun _ _ _ => bound_of_bindSpace) _ u hbind e he
    have hlinked : Store.Within d .spaces [Tree.spaces.indexName, elementsIndex] [] u v :=
      (linkSpaces_within _ u).of_ok hlink
    have htv : t.element e = v.element e := by
      rw [← hlast]
      rfl
    rw [htv]
    exact hlinked.bound e hbound
  · rw [Store.declared, Store.files_of_not_describesCode hcode] at he
    cases he

/-- **Packages**: files, and what is declared for packages, are bound to one. -/
theorem bound_of_buildPackages (h : buildPackages d s = .ok () t) (he : e ∈ s.packaged d) :
    ((t.element e).boundTo .packages).isSome = true := by
  by_cases hcode : s.DescribesCode d
  · obtain ⟨_, u, hbind, hlast⟩ :=
      (ensures_buildPackages (Q := fun _ x => x = t) hcode).1 ⟨(), t, h, rfl⟩
    have hbound := forEach_bound (List.Subset.refl _) (fun x hx s => bindPackage_within hx s)
      (fun _ _ _ => bound_of_bindPackage) _ u hbind e he
    have htu : t.element e = u.element e := by
      rw [← hlast]
      rfl
    rw [htu]
    exact hbound
  · rw [Store.packaged, Store.files_of_not_describesCode hcode] at he
    cases he

/-! ## Full builds -/

theorem Element.package_of_boundTo {x : Element} (h : x.boundTo .packages = some n) :
    x.package = .node n := by
  rw [boundTo] at h
  cases hpackage : x.package with
  | unset => rw [hpackage] at h; cases h
  | text text => rw [hpackage] at h; cases h
  | node m =>
    rw [hpackage] at h
    cases h
    rfl

section Compile

variable {r : SetId} {config : Option Config}

/-- The namespaces are built last, so what they bind stays bound. -/
theorem Compiler.space_of_compile (h : standard.compile d config s = .ok r t)
    (he : e ∈ s.declared d Tree.spaces.kinds) : ∃ n, (t.element e).space = .node n := by
  obtain ⟨-, s₁, u₁, s₂, u₂, s₃, u₃, h₁, hindex, h₂, hpackages, h₃, hspaces, hlast⟩ :=
    stages_of_compile h
  have hextends := (indexElements_ensures 0).of_ok hindex
  have hinput : Store.SameInput d s s₃ :=
    h₁.input.trans (hextends.sameInput.trans (h₂.input.trans
      (((buildPackages_within d s₂).of_ok hpackages).input.trans h₃.input)))
  have hbound := bound_of_buildSpaces hspaces (e := e) (by rw [hinput.declared]; exact he)
  obtain ⟨n, hn⟩ := Option.isSome_iff_exists.1 hbound
  exact ⟨n, by rw [hlast.space, Element.space_of_boundTo hn]⟩

/-- The build of the packages alone decides on packages: it binds what it is built from, and all else
    keeps the package it came with. -/
theorem Compiler.package_of_compile (h : standard.compile d config s = .ok r t) (e : ElementId) :
    (e ∈ s.packaged d → ∃ n, (t.element e).package = .node n) ∧
      (e ∉ s.packaged d → (t.element e).package = (s.element e).package) := by
  obtain ⟨-, s₁, u₁, s₂, u₂, s₃, u₃, h₁, hindex, h₂, hpackages, h₃, hspaces, hlast⟩ :=
    stages_of_compile h
  have hextends := (indexElements_ensures 0).of_ok hindex
  have hpackaged : s₂.packaged d = s.packaged d :=
    (h₁.input.trans (hextends.sameInput.trans h₂.input)).packaged
  have hbefore : (s₂.element e).package = (s.element e).package := by
    rw [h₂.package, Store.element, hextends.elements]
    exact h₁.package e
  have hafter : (t.element e).package = (u₂.element e).package := by
    have hunbound := ((buildSpaces_within d s₃).of_ok hspaces).unbound e
    rw [hlast.package, ← h₃.package]
    exact (congrArg Element.package hunbound :)
  constructor
  · intro he
    obtain ⟨n, hn⟩ := Option.isSome_iff_exists.1
      (bound_of_buildPackages hpackages (e := e) (by rw [hpackaged]; exact he))
    exact ⟨n, by rw [hafter, Element.package_of_boundTo hn]⟩
  · intro he
    have hsame := ((buildPackages_within d s₂).of_ok hpackages).element e (by rw [hpackaged]; exact he)
    rw [hafter, hsame, hbefore]

end Compile

/-- **A full build leaves no texts behind**: when it comes back, with the set it was given, every
    declared element is bound to a namespace, and every file and every declared element but an enum to a
    package, whatever they named before.  What is not packaged keeps the package it came with. -/
theorem Compiler.compile_resolves {d r : SetId} {config : Option Config} {s t : Store}
    (h : standard.compile d config s = .ok r t) :
    r = d ∧ (∀ e ∈ s.declared d Tree.spaces.kinds, ∃ n, (t.element e).space = .node n) ∧
      (∀ e ∈ s.packaged d, ∃ n, (t.element e).package = .node n) ∧
      ∀ e, e ∉ s.packaged d → (t.element e).package = (s.element e).package :=
  ⟨(stages_of_compile h).1, fun _ he => space_of_compile h he,
    fun e he => (package_of_compile h e).1 he, fun e he => (package_of_compile h e).2 he⟩

/-- A class that names its namespace and its package by text, and an enum that does: both are bound to
    namespaces, and the class to a package, but the enum keeps its text. -/
theorem Compiler.compile_resolves_beside_enum :
    let s := Store.ofDeclared [.declare .classType "\\A\\X" "" (.path "\\A") (.text "Core"),
      .declare .enumType "\\A\\E" "" (.path "A") (.text "Core")]
    ∃ t, standard.compile ⟨0⟩ none s = .ok ⟨0⟩ t ∧
      (∀ e ∈ [(⟨1⟩ : ElementId), ⟨2⟩], ∃ n, (t.element e).space = .node n) ∧
      (∃ n, (t.element ⟨1⟩).package = .node n) ∧ (t.element ⟨2⟩).package = .text "Core" := by
  intro s
  have hpromised : s.Promised ⟨0⟩ := ⟨by decide, by decide, by decide⟩
  obtain ⟨r, t, hrun, rfl, -⟩ :=
    compile_ensures (c := standard) (fun _ hp => hp) none hpromised
  obtain ⟨-, hspace, hpackage, hkept⟩ := Compiler.compile_resolves hrun
  refine ⟨t, hrun, fun e he => hspace e ?_, hpackage ⟨1⟩ (by decide), ?_⟩
  · have hdeclared : ∀ e ∈ [(⟨1⟩ : ElementId), ⟨2⟩], e ∈ s.declared ⟨0⟩ Tree.spaces.kinds := by decide
    exact hdeclared e he
  · exact hkept ⟨2⟩ (by decide)

/-- An enum is declared in a file, and has its package as text before and after. -/
theorem Compiler.compile_leaves_package_text :
    let s := Store.ofDeclared [.declare .enumType "\\E" "" (.path "") (.text "Core")]
    let e : ElementId := ⟨1⟩
    ∃ t, standard.compile ⟨0⟩ none s = .ok ⟨0⟩ t ∧
      e ∈ t.declared ⟨0⟩ [.enumType] ∧ (t.element e).package = .text "Core" := by
  intro s e
  have hpromised : s.Promised ⟨0⟩ := ⟨by decide, by decide, by decide⟩
  obtain ⟨r, t, hrun, rfl, hinput⟩ :=
    compile_ensures (c := standard) (fun _ hp => hp) none hpromised
  refine ⟨t, hrun, ?_, (package_of_compile hrun e).2 (by decide)⟩
  rw [hinput.declared]
  decide

end Docset
