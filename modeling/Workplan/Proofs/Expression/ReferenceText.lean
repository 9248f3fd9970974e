import Workplan.Proofs.Blanks
import Workplan.Proofs.Digits
import Workplan.Proofs.Outcome
import Workplan.Reference.Parser

/-! Texts of references: reading and writing undo each other.

A reference is read from the kind before the first point, the longest name behind it, an index and an
attribute. Each of these parts is written with characters that end the part before it, so each is found
again where it was put. All of them are printable ASCII characters, and none is a dollar sign or a brace:
blanks and the braces of a placeholder can be told apart from the text between them. -/
namespace Workplan
open Outcome
set_option autoImplicit false

/-! ## Well-formed references -/

/-- A name as definitions write it: ASCII letters and digits, underscores and hyphens. -/
def IsName (s : String) : Prop :=
  s ≠ "" ∧ ∀ c ∈ s.toList, c.isAlphanum = true ∨ c = '_' ∨ c = '-'

instance (s : String) : Decidable (IsName s) :=
  decidable_of_iff (s ≠ "" ∧ (s.toList.all fun c => c.isAlphanum || c = '_' || c = '-') = true)
    (by simp [IsName, or_assoc])

namespace Reference

/-- The name and the attribute of a reference are names, an index is a number of the machine, and a
resource has neither index nor attribute. -/
structure WellFormed (r : Reference) : Prop where
  name : IsName r.target.name
  index : ∀ i, r.index = .nth i → i < 2 ^ 64
  attr : ∀ a, r.attr = some a → IsName a
  resource : r.isResource = true → r.index = .unindexed ∧ r.attr = none

/-- The texts of a reference: bare or as a placeholder, with blanks around them, and in a placeholder
also inside the braces. -/
inductive Written (r : Reference) : String → Prop where
  | bare {before after : String} (hb : ∀ c ∈ before.toList, Text.isBlank c = true)
    (ha : ∀ c ∈ after.toList, Text.isBlank c = true) : Written r (before ++ r.text ++ after)
  | placeholder {before left right after : String} (hb : ∀ c ∈ before.toList, Text.isBlank c = true)
    (hl : ∀ c ∈ left.toList, Text.isBlank c = true) (hr : ∀ c ∈ right.toList, Text.isBlank c = true)
    (ha : ∀ c ∈ after.toList, Text.isBlank c = true) :
    Written r (before ++ "$\x7b" ++ left ++ r.text ++ right ++ "\x7d" ++ after)

/-! ## Characters -/

theorem isNameChar_iff {c : Char} :
    isNameChar c = true ↔ c.isAlphanum = true ∨ c = '_' ∨ c = '-' := by
  simp [isNameChar, or_assoc]

def isTextChar (c : Char) : Bool := isNameChar c || c = '.' || c = '[' || c = ']' || c = '*'

theorem toNat_of_isTextChar {c : Char} (h : isTextChar c = true) :
    42 ≤ c.toNat ∧ c.toNat ≤ 122 := by
  have hname : isNameChar c = true → 42 ≤ c.toNat ∧ c.toNat ≤ 122 := by
    intro h
    rcases isNameChar_iff.1 h with h | rfl | rfl
    · unfold Char.isAlphanum Char.isAlpha Char.isUpper Char.isLower Char.isDigit at h
      simp only [Bool.or_eq_true, Bool.and_eq_true, decide_eq_true_eq, UInt32.le_iff_toNat_le,
        ge_iff_le] at h
      have : c.toNat = c.val.toNat := rfl
      have : 'Z'.val.toNat = 90 := rfl
      have : 'z'.val.toNat = 122 := rfl
      have : '9'.val.toNat = 57 := rfl
      have : 'A'.val.toNat = 65 := rfl
      have : 'a'.val.toNat = 97 := rfl
      have : '0'.val.toNat = 48 := rfl
      omega
    · decide
    · decide
  simp only [isTextChar, Bool.or_eq_true, decide_eq_true_eq] at h
  rcases h with (((h | rfl) | rfl) | rfl) | rfl
  · exact hname h
  all_goals decide

theorem isBlank_of_isTextChar {c : Char} (h : isTextChar c = true) : Text.isBlank c = false := by
  obtain ⟨hlow, hhigh⟩ := toNat_of_isTextChar h
  simp [Text.isBlank, Text.blankRanges]
  omega

theorem isTextChar_of_isNameChar {c : Char} (h : isNameChar c = true) : isTextChar c = true := by
  simp [isTextChar, h]

theorem isNameChar_of_isDigit {c : Char} (h : c.isDigit = true) : isNameChar c = true :=
  isNameChar_iff.2 (.inl (by simp [Char.isAlphanum, h]))

def kindChars : Target → List Char
  | .step _ => ['s', 't', 'e', 'p']
  | .resource _ => ['r', 'e', 's', 'o', 'u', 'r', 'c', 'e']

theorem isNameChar_of_mem_kindChars {t : Target} {c : Char} (h : c ∈ kindChars t) :
    isNameChar c = true := by
  have hall : (kindChars t).all isNameChar = true := by
    cases t with
    | step name => rfl
    | resource name => rfl
  exact List.all_eq_true.1 hall c h

theorem toList_targetText (t : Target) :
    (targetText t).toList = kindChars t ++ '.' :: t.name.toList := by
  cases t <;> simp [targetText, kindChars, Target.name, String.toList_append]

theorem toList_text (r : Reference) : r.text.toList = kindChars r.target ++
    '.' :: (r.target.name.toList ++ ((indexText r.index).toList ++ (attrText r.attr).toList)) := by
  simp [text, toList_targetText, String.toList_append]

theorem isTextChar_of_mem_indexText {i : InstanceIndex} {c : Char} (h : c ∈ (indexText i).toList) :
    isTextChar c = true := by
  cases i with
  | unindexed => simp [indexText] at h
  | splat =>
    have hall : (indexText .splat).toList.all isTextChar = true := by decide
    exact List.all_eq_true.1 hall c h
  | nth n =>
    simp only [indexText, String.toList_append, List.mem_append] at h
    rcases h with (h | h) | h
    · obtain rfl : c = '[' := by simpa using h
      decide
    · exact isTextChar_of_isNameChar (isNameChar_of_isDigit (isDigit_of_mem_repr h))
    · obtain rfl : c = ']' := by simpa using h
      decide

theorem WellFormed.isTextChar_of_mem {r : Reference} (h : r.WellFormed) {c : Char}
    (hc : c ∈ r.text.toList) : isTextChar c = true := by
  have hname : ∀ {s : String}, IsName s → ∀ c ∈ s.toList, isTextChar c = true :=
    fun hs c hc => isTextChar_of_isNameChar (isNameChar_iff.2 (hs.2 c hc))
  rw [toList_text, List.mem_append, List.mem_cons, List.mem_append, List.mem_append] at hc
  rcases hc with hc | rfl | hc | hc | hc
  · exact isTextChar_of_isNameChar (isNameChar_of_mem_kindChars hc)
  · decide
  · exact hname h.name c hc
  · exact isTextChar_of_mem_indexText hc
  · cases ha : r.attr with
    | none => simp [ha, attrText] at hc
    | some a =>
      rw [ha, attrText, String.toList_append, List.mem_append] at hc
      rcases hc with hc | hc
      · obtain rfl : c = '.' := by simpa using hc
        decide
      · exact hname (h.attr a ha) c hc

/-! ## Reading what is written -/

theorem splitAtChar?_append {c : Char} {before after : List Char} (h : c ∉ before) :
    splitAtChar? c (before ++ c :: after) = some (before, after) := by
  induction before with
  | nil => simp [splitAtChar?]
  | cons d before ih =>
    have hd : d ≠ c := fun he => h (by simp [he])
    simp [splitAtChar?, hd, ih fun hm => h (List.mem_cons_of_mem d hm)]

theorem name_append {name rest : List Char} (hn : ∀ c ∈ name, isNameChar c = true)
    (hr : ∀ c, rest.head? = some c → isNameChar c = false) :
    (name ++ rest).takeWhile isNameChar = name ∧ (name ++ rest).dropWhile isNameChar = rest := by
  have hdrop := Text.dropWhile_append hn hr
  refine ⟨?_, hdrop⟩
  have hsplit := List.takeWhile_append_dropWhile (p := isNameChar) (l := name ++ rest)
  rw [hdrop] at hsplit
  exact List.append_cancel_right hsplit

theorem parseIndex_append {i : InstanceIndex} (hi : ∀ n, i = .nth n → n < 2 ^ 64)
    {rest : List Char} (hr : rest.head? ≠ some '[') :
    parseIndex ((indexText i).toList ++ rest) = .ok (i, rest) := by
  cases i with
  | unindexed =>
    have he : (indexText .unindexed).toList ++ rest = rest := by simp [indexText]
    rw [he]
    unfold parseIndex
    split
    next => exact absurd rfl hr
    next => rfl
  | splat =>
    have he : (indexText .splat).toList ++ rest = '[' :: (['*'] ++ ']' :: rest) := by
      simp [indexText]
    rw [he, parseIndex, splitAtChar?_append (by decide)]
    rfl
  | nth n =>
    have he : (indexText (.nth n)).toList ++ rest =
        '[' :: ((Nat.repr n).toList ++ ']' :: rest) := by
      simp [indexText, String.toList_append]
    have hdigit : ∀ c ∈ (Nat.repr n).toList, isNameChar c = true :=
      fun c hc => isNameChar_of_isDigit (isDigit_of_mem_repr hc)
    have hclose : ']' ∉ (Nat.repr n).toList := fun hm => absurd (hdigit _ hm) (by decide)
    have htrim : Text.trimChars (Nat.repr n).toList = (Nat.repr n).toList :=
      Text.trimChars_of_not_blank fun c hc =>
        isBlank_of_isTextChar (isTextChar_of_isNameChar (hdigit c hc))
    have hstar : (Nat.repr n).toList ≠ ['*'] := by
      intro h
      exact absurd (hdigit '*' (by simp [h])) (by decide)
    rw [he, parseIndex, splitAtChar?_append hclose]
    dsimp only
    rw [htrim, if_neg hstar, readNatBelow?_repr (hi n rfl)]

theorem parseAttr_attrText {a : Option String} (h : ∀ s, a = some s → IsName s) :
    parseAttr (attrText a).toList = .ok a := by
  cases a with
  | none => rfl
  | some s =>
    have hs := h s rfl
    have he : (attrText (some s)).toList = '.' :: s.toList := by
      simp [attrText, String.toList_append]
    have hall : s.toList.all isNameChar = true :=
      List.all_eq_true.2 fun c hc => isNameChar_iff.2 (hs.2 c hc)
    rw [he, parseAttr, if_neg (by simp [hall, hs.1]), String.ofList_toList]

theorem parseTarget_kindChars {t : Target} {i : InstanceIndex} {a : Option String}
    (h : (∃ name, t = .resource name) → i = .unindexed ∧ a = none) :
    parseTarget (kindChars t) t.name i a = .ok t := by
  cases t with
  | step name => rfl
  | resource name =>
    obtain ⟨rfl, rfl⟩ := h ⟨name, rfl⟩
    rfl

theorem WellFormed.parseBody_text {r : Reference} (h : r.WellFormed) :
    parseBody r.text.toList = .ok r := by
  have hpoint : '.' ∉ kindChars r.target := fun hm =>
    absurd (isNameChar_of_mem_kindChars hm) (by decide)
  have hattr : ∀ c, (attrText r.attr).toList.head? = some c → c = '.' := by
    intro c hc
    cases ha : r.attr with
    | none => simp [ha, attrText] at hc
    | some a => simpa [ha, attrText, String.toList_append] using hc.symm
  -- behind the name there is a bracket, a point or nothing
  have hrest : ∀ c, ((indexText r.index).toList ++ (attrText r.attr).toList).head? = some c →
      isNameChar c = false := by
    intro c hc
    cases hi : r.index with
    | unindexed =>
      have hc' : (attrText r.attr).toList.head? = some c := by simpa [hi, indexText] using hc
      rw [hattr c hc']
      decide
    | nth n =>
      have hc' : '[' = c := by simpa [hi, indexText, String.toList_append] using hc
      rw [← hc']
      decide
    | splat =>
      have hc' : '[' = c := by simpa [hi, indexText] using hc
      rw [← hc']
      decide
  obtain ⟨htake, hdrop⟩ := name_append (fun c hc => isNameChar_iff.2 (h.name.2 c hc)) hrest
  have hne : ¬r.target.name.toList.isEmpty = true := by simp [h.name.1]
  have hindex : parseIndex ((indexText r.index).toList ++ (attrText r.attr).toList) =
      .ok (r.index, (attrText r.attr).toList) :=
    parseIndex_append h.index fun hc => absurd (hattr _ hc) (by decide)
  have htarget : parseTarget (kindChars r.target) r.target.name r.index r.attr = .ok r.target :=
    parseTarget_kindChars fun hres =>
      h.resource (by obtain ⟨name, ht⟩ := hres; simp [isResource, isStep, ht])
  rw [toList_text, parseBody, splitAtChar?_append hpoint]
  dsimp only
  rw [htake, hdrop, if_neg hne, hindex, String.ofList_toList]
  refine bind_eq_ok.2 ⟨_, rfl, bind_eq_ok.2 ⟨_, parseAttr_attrText h.attr, ?_⟩⟩
  exact bind_eq_ok.2 ⟨_, htarget, rfl⟩

/-! ### Blanks and braces -/

section Surrounded
variable {r : Reference} (h : r.WellFormed)
include h

theorem WellFormed.not_isBlank_of_mem {c : Char} (hc : c ∈ r.text.toList) : Text.isBlank c = false :=
  isBlank_of_isTextChar (h.isTextChar_of_mem hc)

theorem WellFormed.trimChars_text : Text.trimChars r.text.toList = r.text.toList :=
  Text.trimChars_of_not_blank fun _ hc => h.not_isBlank_of_mem hc

theorem WellFormed.trimChars_append {before after : List Char}
    (hb : ∀ c ∈ before, Text.isBlank c = true) (ha : ∀ c ∈ after, Text.isBlank c = true) :
    Text.trimChars (before ++ r.text.toList ++ after) = r.text.toList := by
  have hne : r.text.toList ≠ [] := by simp [toList_text]
  exact Text.trimChars_append hb ha hne (fun c hc => h.not_isBlank_of_mem (List.mem_of_head? hc))
    fun c hc => h.not_isBlank_of_mem (List.mem_of_getLast? hc)

theorem WellFormed.unwrap_text : unwrap r.text.toList = r.text.toList := by
  unfold unwrap
  split
  next inner he =>
    have hdollar : isTextChar '$' = true := h.isTextChar_of_mem (by simp [he])
    exact absurd hdollar (by decide)
  next => rfl

theorem WellFormed.parse_written {text : String} (hw : r.Written text) : parse text = .ok r := by
  have hchars : parseChars text.toList = .ok r := by
    cases hw with
    | bare hb ha =>
      rw [parseChars, String.toList_append, String.toList_append, h.trimChars_append hb ha,
        h.unwrap_text, h.trimChars_text, h.parseBody_text]
    | @placeholder before left right after hb hl hr ha =>
      have he : (before ++ "$\x7b" ++ left ++ r.text ++ right ++ "\x7d" ++ after).toList =
          before.toList ++ ('$' :: '{' :: (left.toList ++ r.text.toList ++ right.toList ++ ['}'])) ++
            after.toList := by
        simp [String.toList_append]
      rw [parseChars, he, Text.trimChars_append hb ha (by simp)]
      · have hinner : ∀ inner : List Char, unwrap ('$' :: '{' :: (inner ++ ['}'])) = inner := by
          intro inner
          simp [unwrap]
        rw [hinner, h.trimChars_append hl hr, h.parseBody_text]
      · intro c hc
        obtain rfl : '$' = c := by simpa using hc
        decide
      · intro c hc
        obtain rfl : '}' = c := by simpa [List.getLast?_cons] using hc
        decide
  rw [parse, hchars]
  rfl

theorem WellFormed.parse_text : parse r.text = .ok r := by
  have hbare : r.Written ("" ++ r.text ++ "") := .bare (by simp) (by simp)
  simpa using h.parse_written hbare

end Surrounded

/-! ## Writing what is read -/

theorem isName_of_all {name : List Char} (hne : name ≠ []) (h : ∀ c ∈ name, isNameChar c = true) :
    IsName (String.ofList name) := by
  refine ⟨by simpa using hne, fun c hc => isNameChar_iff.1 (h c ?_)⟩
  simpa using hc

theorem lt_of_parseIndex {cs rest : List Char} {i : InstanceIndex} (h : parseIndex cs = .ok (i, rest))
    {n : Nat} (hn : i = .nth n) : n < 2 ^ 64 := by
  subst hn
  unfold parseIndex at h
  split at h
  next after =>
    split at h
    next => cases h
    next inner rest' _ =>
      dsimp only at h
      split at h
      next => cases h
      next =>
        split at h
        next i hi =>
          cases h
          exact lt_of_readNatBelow? hi
        next => cases h
  next => cases h

theorem isName_of_parseAttr {cs : List Char} {a : Option String} (h : parseAttr cs = .ok a)
    {s : String} (hs : a = some s) : IsName s := by
  subst hs
  unfold parseAttr at h
  split at h
  next => cases h
  next name =>
    split at h
    next => cases h
    next hname =>
      cases h
      simp only [Bool.or_eq_true, Bool.not_eq_true', List.isEmpty_iff, not_or,
        Bool.not_eq_false, List.all_eq_true] at hname
      exact isName_of_all hname.1 hname.2
  next => cases h

theorem of_parseTarget {kind : List Char} {name : String} {i : InstanceIndex} {a : Option String}
    {t : Target} (h : parseTarget kind name i a = .ok t) :
    t = .step name ∨ t = .resource name ∧ i = .unindexed ∧ a = none := by
  unfold parseTarget at h
  split at h
  next =>
    cases h
    exact .inl rfl
  next =>
    split at h
    next =>
      split at h
      next => cases h
      next hsel =>
        cases h
        exact .inr ⟨rfl, by simpa using hsel⟩
    next => cases h

theorem wellFormed_of_parse {text : String} {r : Reference} (h : parse text = .ok r) :
    r.WellFormed := by
  have hbody := mapError_eq_ok.1 h
  rw [parseChars, parseBody] at hbody
  split at hbody
  next => cases hbody
  next kind rest _ =>
    dsimp only at hbody
    split at hbody
    next => cases hbody
    next hne =>
      obtain ⟨⟨index, rest'⟩, hindex, hbody⟩ := bind_eq_ok.1 hbody
      obtain ⟨attr, hattr, hbody⟩ := bind_eq_ok.1 hbody
      obtain ⟨target, htarget, hbody⟩ := bind_eq_ok.1 hbody
      cases hbody
      have hname : IsName (String.ofList (rest.takeWhile isNameChar)) :=
        isName_of_all (by simpa using hne) (List.all_eq_true.1 List.all_takeWhile)
      have hi : ∀ n, index = .nth n → n < 2 ^ 64 := fun n hn => lt_of_parseIndex hindex hn
      have ha : ∀ s, attr = some s → IsName s := fun s hs => isName_of_parseAttr hattr hs
      rcases of_parseTarget htarget with rfl | ⟨rfl, rfl, rfl⟩
      · exact ⟨hname, hi, ha, fun hres => by simp [isResource, isStep] at hres⟩
      · exact ⟨hname, hi, ha, fun _ => ⟨rfl, rfl⟩⟩

/-- Reading and writing undo each other: what is read is well-formed, and whatever is well-formed is
read from each of its texts. So its text tells a reference, and reading it again changes nothing. -/
theorem parse_inverse_text :
    (∀ (text : String) (r : Reference), parse text = .ok r → r.WellFormed) ∧
    (∀ (r : Reference) (text : String), r.WellFormed → r.Written text → parse text = .ok r) ∧
    (∀ r r' : Reference, r.WellFormed → r'.WellFormed → r.text = r'.text → r = r') ∧
    ∀ (text : String) (r : Reference), parse text = .ok r → parse r.text = .ok r := by
  refine ⟨fun _ _ => wellFormed_of_parse, fun _ _ h hw => h.parse_written hw, ?_, ?_⟩
  · intro r r' h h' htext
    have hr := h.parse_text
    rw [htext, h'.parse_text] at hr
    exact (Except.ok.inj hr).symm
  · exact fun _ _ hr => (wellFormed_of_parse hr).parse_text

def lastInstance : Reference := ((step "fetch").nth (2 ^ 64 - 1)).withAttr "status"

/-- The largest index is read between blanks of several kinds. -/
theorem parse_lastInstance : lastInstance.WellFormed ∧
    parse "\u00a0$\x7b\tstep.fetch[18446744073709551615].status \x7d\n" = .ok lastInstance := by
  have hwf : lastInstance.WellFormed := by
    refine ⟨by decide +kernel, fun i hi => ?_, fun a ha => ?_, fun hres => ?_⟩
    · cases hi
      decide
    · cases ha
      decide +kernel
    · cases hres
  have hwritten : lastInstance.Written
      ("\u00a0" ++ "$\x7b" ++ "\t" ++ lastInstance.text ++ " " ++ "\x7d" ++ "\n") :=
    .placeholder (List.all_eq_true.1 (by decide +kernel)) (List.all_eq_true.1 (by decide +kernel))
      (List.all_eq_true.1 (by decide +kernel)) (List.all_eq_true.1 (by decide +kernel))
  have htext : "\u00a0" ++ "$\x7b" ++ "\t" ++ lastInstance.text ++ " " ++ "\x7d" ++ "\n" =
      "\u00a0$\x7b\tstep.fetch[18446744073709551615].status \x7d\n" := by
    decide +kernel
  refine ⟨hwf, ?_⟩
  rw [← htext]
  exact parse_inverse_text.2.1 lastInstance _ hwf hwritten

end Reference

end Workplan
