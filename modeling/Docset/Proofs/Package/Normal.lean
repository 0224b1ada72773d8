/-
  Whether the names of packages are normal forms.

  A name is taken from the text that tags give, by trimming white space and then separators.  One would
  like the name to be NORMAL, with neither at its ends, so that it does not matter how a package is
  surrounded where it is named.

  **The theorem** (`Element.packageName_normal`): there are never separators at the ends of a name.  White
  space is another matter.  It is gone exactly if in the text none stands within the separators around the
  name; exactly then the name, given as the only tag, names the same package again; and exactly then it is
  the CORE of the text, which is what is left when both are trimmed together.  So of two normal names, texts
  that differ only around them give the same.

  The condition can fail: a package below none, called ` IO`, keeps its space, since a separator has come in
  front of it (`Element.packageName_normal_below`).
-/
import Docset.Package.Name
import Docset.Proofs.Text.Trimming

namespace Docset

open Docset.Text

/-- Whether a character is white space or a separator. -/
def isMargin (c : Char) : Bool := isBlank c || c == Path.separator

namespace Element

/-- The text that the tags give for the package, without white space and separators at its ends. -/
def packageCore (e : Element) : String := String.ofList (trimBy isMargin e.packageText.toList)

/-- Whether a text has a core with separators around it, and white space around those. -/
def SpacedOutside (text : String) : Prop :=
  ∃ a b middle b' a', text.toList = a ++ (b ++ middle ++ b') ++ a' ∧
    (∀ c ∈ a, isBlank c = true) ∧ (∀ c ∈ b, (c == Path.separator) = true) ∧ IsTrimmed isMargin middle ∧
      (∀ c ∈ b', (c == Path.separator) = true) ∧ ∀ c ∈ a', isBlank c = true

/-! ## Names and texts -/

theorem toList_packageName (e : Element) : e.packageName.toList =
    trimBy (· == Path.separator) (trimBy isBlank e.packageText.toList) := by
  rw [packageName, trimChar, trim, String.toList_ofList, String.toList_ofList]

theorem isTrimmed_packageName (e : Element) :
    IsTrimmed (· == Path.separator) e.packageName.toList := by
  rw [toList_packageName]
  exact isTrimmed_trimBy _ _

theorem isTrimmed_packageName_iff (e : Element) :
    IsTrimmed isBlank e.packageName.toList ↔ SpacedOutside e.packageText := by
  rw [toList_packageName]
  refine isTrimmed_trimBy_trimBy_iff fun c hc => ?_
  rw [eq_of_beq hc]
  decide

theorem packageName_eq_packageCore_iff (e : Element) :
    e.packageName = e.packageCore ↔ IsTrimmed isBlank e.packageName.toList := by
  rw [← String.toList_inj, packageCore, String.toList_ofList, toList_packageName]
  exact isTrimmed_trimBy_trimBy.symm

/-! ## Naming a package again -/

theorem packageText_of_single {e : Element} {text : String} (h : e.tags = [⟨"package", text⟩]) :
    e.packageText = text := by
  have hmain : e.firstTag "package" = some ⟨"package", text⟩ := by
    rw [firstTag, h]
    rfl
  have hsub : e.firstTag "subpackage" = none := by
    rw [firstTag, h]
    rfl
  rw [packageText, hmain, hsub]
  rfl

/-- The only tag gives a name of a package again exactly if the name has no white space at its ends. -/
theorem packageName_again_iff {e again : Element} (h : again.tags = [⟨"package", e.packageName⟩]) :
    again.packageName = e.packageName ↔ IsTrimmed isBlank e.packageName.toList := by
  have htext : again.packageName.toList =
      trimBy (· == Path.separator) (trimBy isBlank e.packageName.toList) := by
    rw [toList_packageName, packageText_of_single h]
  constructor
  · intro heq
    -- Nothing can be trimmed that is still there in the end.
    have hsub := trimBy_sublist (· == Path.separator) (trimBy isBlank e.packageName.toList)
    rw [← htext, heq] at hsub
    rw [← trimBy_eq_self_iff]
    exact (trimBy_sublist _ _).eq_of_length_le hsub.length_le
  · intro hblank
    rw [trimBy_eq_self_iff.2 hblank, trimBy_eq_self_iff.2 (isTrimmed_packageName e)] at htext
    exact String.toList_inj.1 htext

/-! ## The theorem -/

/-- **When names of packages are normal.**  A name never has separators at its ends.  That it has no white
    space there either is the case exactly if the text of the tags has white space only outside of the
    separators around its core; exactly if an element with the name as its only tag is in the same package;
    and exactly if the name is the core.  Hence two elements with such names are in the same package
    exactly if their texts have the same core. -/
theorem packageName_normal (e : Element) :
    IsTrimmed (· == Path.separator) e.packageName.toList ∧
      (IsTrimmed isBlank e.packageName.toList ↔ SpacedOutside e.packageText) ∧
      (∀ again : Element, again.tags = [⟨"package", e.packageName⟩] →
        (again.packageName = e.packageName ↔ IsTrimmed isBlank e.packageName.toList)) ∧
      (e.packageName = e.packageCore ↔ IsTrimmed isBlank e.packageName.toList) ∧
      ∀ other : Element, IsTrimmed isBlank e.packageName.toList →
        IsTrimmed isBlank other.packageName.toList →
          (other.packageName = e.packageName ↔ other.packageCore = e.packageCore) := by
  refine ⟨isTrimmed_packageName e, isTrimmed_packageName_iff e, fun _ h => packageName_again_iff h,
    packageName_eq_packageCore_iff e, fun other he hother => ?_⟩
  rw [(packageName_eq_packageCore_iff e).2 he, (packageName_eq_packageCore_iff other).2 hother]

/-- Below no package, ` IO` is one with a space in its name, and given alone that name leads elsewhere. -/
theorem packageName_normal_below :
    let e : Element := { (default : Element) with tags := [⟨"subpackage", " IO"⟩] }
    let again : Element := { (default : Element) with tags := [⟨"package", " IO"⟩] }
    e.packageName = " IO" ∧ again.packageName = "IO" ∧ ¬ SpacedOutside e.packageText := by
  intro e again
  have hname : e.packageName = " IO" := by decide
  have hagain : again.packageName = "IO" := by decide
  obtain ⟨-, hspaced, hsame, -⟩ := packageName_normal e
  refine ⟨hname, hagain, fun hout => ?_⟩
  have heq := (hsame again (by rw [hname])).2 (hspaced.2 hout)
  rw [hagain, hname] at heq
  exact absurd heq (by decide)

end Element

end Docset
