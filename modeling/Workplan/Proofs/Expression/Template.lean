import Workplan.Expression.Template
import Workplan.Proofs.Expression.ReferenceText

/-! Templates: reading and writing undo each other.

Inside text the reader remembers whether the character before is a dollar sign that no escape has used
up. An escape puts a brace behind its dollar sign, so this is the same as to say that the text read so
far ends in a dollar sign (`textState`): with nothing else to remember, escaped text is read in one
step (`parseFrom_escapeDollars`). What texts cannot be in a template follows from the same state. A
dollar sign before a placeholder would have made an escape of it, and between two texts there would have
been a placeholder. -/
namespace Workplan
open Outcome
set_option autoImplicit false

namespace Segment

/-! ## Canonical lists -/

/-- Text that is not empty, a well-formed reference, or a variable. -/
def Valid : Segment → Prop
  | .text s => s ≠ ""
  | .reference r => r.WellFormed
  | .variable _ => True

/-- What may follow a segment. Two texts in a row would be one text, and a dollar sign at the end of a
text would take the meaning of the placeholder behind it away. -/
def CanPrecede : Segment → Segment → Prop
  | .text _, .text _ => False
  | .text s, _ => s.toList.getLast? ≠ some '$'
  | _, _ => True

/-- A list of segments that a template can be read as. -/
structure Canonical (segments : List Segment) : Prop where
  valid : ∀ segment ∈ segments, segment.Valid
  adjacent : segments.IsChain CanPrecede

def IsPlaceholder (segment : Segment) : Prop := ∀ s, segment ≠ .text s

theorem IsPlaceholder.canPrecede {p : Segment} (h : p.IsPlaceholder) (q : Segment) :
    p.CanPrecede q := by
  cases p with
  | text s => exact absurd rfl (h s)
  | reference r => trivial
  | «variable» v => trivial

theorem text_canPrecede {s : String} {p : Segment} (hp : p.IsPlaceholder) :
    (Segment.text s).CanPrecede p ↔ s.toList.getLast? ≠ some '$' := by
  cases p with
  | text t => exact absurd rfl (hp t)
  | reference r => exact .rfl
  | «variable» v => exact .rfl

theorem Canonical.nil : Canonical [] := ⟨by simp, .nil⟩

theorem Canonical.tail {p : Segment} {ps : List Segment} (h : Canonical (p :: ps)) :
    Canonical ps := by
  refine ⟨fun q hq => h.valid q (List.mem_cons_of_mem p hq), ?_⟩
  cases ps with
  | nil => exact .nil
  | cons q ps => exact (List.isChain_cons_cons.1 h.adjacent).2

theorem Canonical.cons {p : Segment} {ps : List Segment} (hv : p.Valid)
    (hp : ∀ q, ps.head? = some q → p.CanPrecede q) (h : Canonical ps) : Canonical (p :: ps) := by
  refine ⟨List.forall_mem_cons.2 ⟨hv, h.valid⟩, ?_⟩
  cases ps with
  | nil => exact .singleton p
  | cons q ps => exact .cons_cons (hp q rfl) h.adjacent

/-! ## Steps of the reader -/

section Steps
variable {source : String} {done rest : List Char}

def textState (done : List Char) : TemplateState := .inText done (done.head? = some '$')

theorem parseFrom_nil : parseFrom source (textState done) [] = .ok (ofText done) := by
  rw [textState, parseFrom]

theorem parseFrom_char {c : Char} (h : c = '$' → rest.head? ≠ some '{') :
    parseFrom source (textState done) (c :: rest) = parseFrom source (textState (c :: done)) rest := by
  rw [textState, parseFrom]
  · simp [textState]
  · rintro r hc rfl
    exact h hc rfl

theorem parseFrom_escape (h : done.head? = some '$') :
    parseFrom source (textState done) ('$' :: '{' :: rest) =
      parseFrom source (textState ('{' :: done)) rest := by
  rw [textState, parseFrom, if_pos (by simpa using h)]
  rfl

theorem parseFrom_open (h : done.head? ≠ some '$') :
    parseFrom source (textState done) ('$' :: '{' :: rest) =
      (parseFrom source (.inPlaceholder []) rest).map (ofText done ++ ·) := by
  rw [textState, parseFrom, if_neg (by simpa using h)]

theorem parseFrom_body {body : List Char} (hb : '}' ∉ body) (acc : List Char) :
    parseFrom source (.inPlaceholder acc) (body ++ '}' :: rest) = (do
      let segment ← parsePlaceholder (acc.reverse ++ body)
      let segments ← parseFrom source (textState []) rest
      .ok (segment :: segments)) := by
  induction body generalizing acc with
  | nil =>
    rw [List.nil_append, parseFrom, if_pos rfl, List.append_nil]
    rfl
  | cons c body ih =>
    have hc : c ≠ '}' := fun he => hb (by simp [he])
    rw [List.cons_append, parseFrom, if_neg hc, ih fun hm => hb (List.mem_cons_of_mem c hm)]
    simp

end Steps

/-! ## Reading what is written -/

theorem head?_escapeDollars (cs : List Char) : (Text.escapeDollars cs).head? = cs.head? := by
  fun_cases Text.escapeDollars cs <;> rfl

theorem parseFrom_escapeDollars {source : String} {rest : List Char} (hr : rest.head? ≠ some '{')
    (cs done : List Char) :
    parseFrom source (textState done) (Text.escapeDollars cs ++ rest) =
      parseFrom source (textState (cs.reverse ++ done)) rest := by
  fun_induction Text.escapeDollars cs generalizing done with
  | case1 cs ih =>
    rw [List.cons_append, List.cons_append, List.cons_append, parseFrom_char (by simp),
      parseFrom_escape rfl, ih]
    simp
  | case2 c cs hplain ih =>
    rw [List.cons_append, parseFrom_char, ih]
    · simp
    · -- the next character is that of the text, or what follows the text
      rintro rfl
      cases cs with
      | nil => simpa [Text.escapeDollars] using hr
      | cons d cs =>
        rw [List.head?_append_of_ne_nil]
        · rw [head?_escapeDollars]
          rintro hd
          obtain rfl : d = '{' := by simpa using hd
          exact hplain cs rfl rfl
        · intro hnil
          have hhead := head?_escapeDollars (d :: cs)
          rw [hnil] at hhead
          cases hhead
  | case3 => rfl

theorem parsePlaceholder_text (v : Variable) :
    parsePlaceholder v.text.toList = .ok (.variable v) := by
  cases v <;> rfl

theorem parsePlaceholder_reference {r : Reference} (h : r.WellFormed) :
    parsePlaceholder r.text.toList = .ok (.reference r) := by
  -- a reference begins with the name of its kind, and no variable does
  have hne : ∀ v : Variable, r.text ≠ v.text := by
    intro v he
    have hparse := h.parse_text
    rw [he] at hparse
    cases v <;> cases hparse
  rw [parsePlaceholder, h.trimChars_text, String.ofList_toList, if_neg (hne _), if_neg (hne _),
    if_neg (hne _), h.parse_text]
  rfl

theorem exists_body {p : Segment} (hp : p.IsPlaceholder) (hv : p.Valid) : ∃ body,
    p.print = '$' :: '{' :: (body ++ ['}']) ∧ '}' ∉ body ∧ parsePlaceholder body = .ok p := by
  cases p with
  | text s => exact absurd rfl (hp s)
  | reference r =>
    refine ⟨r.text.toList, by simp [print], fun hm => ?_, parsePlaceholder_reference hv⟩
    have hbrace : Reference.isTextChar '}' = true := hv.isTextChar_of_mem hm
    exact absurd hbrace (by decide)
  | «variable» v =>
    refine ⟨v.text.toList, by simp [print], ?_, parsePlaceholder_text v⟩
    cases v <;> decide +kernel

/-- The reader continues a text with the segments that are written behind it. -/
theorem parseFrom_print {source : String} {done : List Char} {segments : List Segment}
    (h : Canonical (ofText done ++ segments)) :
    parseFrom source (textState done) (segments.flatMap print) = .ok (ofText done ++ segments) := by
  -- a text among the segments joins what has been read, which is then nothing yet
  induction segments generalizing done with
  | nil => rw [List.flatMap_nil, parseFrom_nil, List.append_nil]
  | cons p segments ih =>
    by_cases hp : p.IsPlaceholder
    · have hdone : done.head? ≠ some '$' := by
        cases done with
        | nil => simp
        | cons c done =>
          have hchain := (List.isChain_cons_cons.1 h.adjacent).1
          have hlast := (text_canPrecede hp).1 hchain
          simpa using hlast
      have hcanonical : Canonical (p :: segments) := by
        cases done with
        | nil => exact h
        | cons c done => exact h.tail
      obtain ⟨body, hprint, hbrace, hbody⟩ := exists_body hp (hcanonical.valid p List.mem_cons_self)
      have hafter : Canonical (ofText [] ++ segments) := hcanonical.tail
      have hrest : parseFrom source (textState []) (segments.flatMap print) = .ok segments := ih hafter
      rw [List.flatMap_cons, hprint, List.cons_append, List.cons_append, List.append_assoc,
        List.singleton_append, parseFrom_open hdone, parseFrom_body hbrace, List.reverse_nil,
        List.nil_append, hbody, hrest]
      rfl
    · obtain ⟨s, rfl⟩ : ∃ s, p = .text s := by simpa [IsPlaceholder] using hp
      obtain rfl : done = [] := by
        cases done with
        | nil => rfl
        | cons c done => exact absurd (List.isChain_cons_cons.1 h.adjacent).1 id
      have hs : s ≠ "" := h.valid _ List.mem_cons_self
      have htext : ofText s.toList.reverse = [.text s] := by simp [ofText, hs]
      -- a text is followed by the end or by a placeholder
      have hnext : (segments.flatMap print).head? ≠ some '{' := by
        cases segments with
        | nil => simp
        | cons q segments =>
          have hq : q.IsPlaceholder := by
            rintro t rfl
            exact (List.isChain_cons_cons.1 h.adjacent).1
          obtain ⟨body, hprint, -, -⟩ := exists_body hq (h.valid q (by simp))
          simp [hprint]
      have hfull : Canonical (ofText s.toList.reverse ++ segments) := by
        rw [htext]
        exact h
      have hih := ih hfull
      rw [htext] at hih
      rw [List.flatMap_cons, print, parseFrom_escapeDollars hnext, List.append_nil, hih]
      rfl

/-- Canonical segments are read as they are written. -/
theorem Canonical.parseAll_printAll {segments : List Segment} (h : Canonical segments) :
    parseAll (printAll segments) = .ok segments := by
  have hstart : Canonical (ofText [] ++ segments) := h
  rw [parseAll, printAll, String.toList_ofList]
  exact parseFrom_print hstart

/-! ## Writing what is read -/

theorem of_parsePlaceholder {body : List Char} {p : Segment} (h : parsePlaceholder body = .ok p) :
    p.IsPlaceholder ∧ p.Valid := by
  rw [parsePlaceholder] at h
  split at h
  next =>
    cases h
    exact ⟨by rintro s ⟨⟩, trivial⟩
  next =>
    split at h
    next =>
      cases h
      exact ⟨by rintro s ⟨⟩, trivial⟩
    next =>
      split at h
      next =>
        cases h
        exact ⟨by rintro s ⟨⟩, trivial⟩
      next =>
        obtain ⟨r, hr, rfl⟩ := map_eq_ok.1 h
        exact ⟨by rintro s ⟨⟩, Reference.wellFormed_of_parse hr⟩

theorem canonical_ofText {done : List Char} {segments : List Segment} (h : Canonical segments)
    (hd : ∀ p, segments.head? = some p → p.IsPlaceholder ∧ done.head? ≠ some '$') :
    Canonical (ofText done ++ segments) := by
  cases done with
  | nil => exact h
  | cons c done =>
    refine Canonical.cons (by simp [Valid]) (fun p hp => ?_) h
    obtain ⟨hp, hdollar⟩ := hd p hp
    exact (text_canPrecede hp).2 (by simpa using hdollar)

def Reached : TemplateState → Prop
  | .inText done dollar => dollar = decide (done.head? = some '$')
  | .inPlaceholder _ => True

/-- Inside a placeholder, the next segment is a placeholder. -/
def Expected : TemplateState → List Segment → Prop
  | .inText _ _, _ => True
  | .inPlaceholder _, segments => ∃ p rest, segments = p :: rest ∧ p.IsPlaceholder

theorem canonical_of_parseFrom {source : String} {state : TemplateState} {cs : List Char}
    {segments : List Segment} (hstate : Reached state)
    (h : parseFrom source state cs = .ok segments) : Canonical segments ∧ Expected state segments := by
  fun_induction parseFrom source state cs generalizing segments with
  | case1 done dollar =>
    cases h
    refine ⟨?_, trivial⟩
    rw [← List.append_nil (ofText done)]
    exact canonical_ofText Canonical.nil (by simp)
  | case2 done rest ih => exact ⟨(ih rfl h).1, trivial⟩
  | case3 done dollar rest hdollar ih =>
    obtain ⟨after, hafter, rfl⟩ := map_eq_ok.1 h
    obtain ⟨hc, p, rest', rfl, hp⟩ := ih trivial hafter
    refine ⟨canonical_ofText hc fun q hq => ?_, trivial⟩
    obtain rfl : p = q := by simpa using hq
    refine ⟨hp, fun hd => hdollar ?_⟩
    rw [show dollar = _ from hstate]
    simpa using hd
  | case4 done dollar c rest hplain ih => exact ⟨(ih (by simp [Reached]) h).1, trivial⟩
  | case5 body => cases h
  | case6 body rest ih =>
    obtain ⟨p, hp, h⟩ := bind_eq_ok.1 h
    obtain ⟨after, hafter, h⟩ := bind_eq_ok.1 h
    cases h
    obtain ⟨hplace, hv⟩ := of_parsePlaceholder hp
    exact ⟨.cons hv (fun q _ => hplace.canPrecede q) (ih rfl hafter).1, p, after, rfl, hplace⟩
  | case7 body c rest hc ih => exact ih trivial h

theorem canonical_of_parseAll {source : String} {segments : List Segment}
    (h : parseAll source = .ok segments) : Canonical segments :=
  (canonical_of_parseFrom (show Reached (.inText [] false) from rfl) h).1

end Segment

/-! ## Expressions -/

namespace Expression

/-- The expression that segments stand for: several make a template, a single one keeps its type, and
none are the empty text. -/
inductive OfSegments : List Segment → Expression → Prop where
  | none : OfSegments [] (.literal (.string ""))
  | text (s : String) : OfSegments [.text s] (.literal (.string s))
  | reference (r : Reference) : OfSegments [.reference r] (.reference r)
  | «variable» (v : Variable) : OfSegments [.variable v] (.variable v)
  | template {segments : List Segment} (h : 2 ≤ segments.length) :
    OfSegments segments (.template segments)

theorem ofSegments_spec (segments : List Segment) : OfSegments segments (ofSegments segments) := by
  fun_cases ofSegments segments with
  | case1 => exact .none
  | case2 s => exact .text s
  | case3 r => exact .reference r
  | case4 v => exact .variable v
  | case5 segments hnone htext hreference hvariable =>
    cases segments with
    | nil => exact absurd rfl hnone
    | cons p rest =>
      cases rest with
      | cons q rest => exact .template (by simp)
      | nil =>
        cases p with
        | text s => exact absurd rfl (htext s)
        | reference r => exact absurd rfl (hreference r)
        | «variable» v => exact absurd rfl (hvariable v)

/-- An expression stands for at most one canonical list of segments. -/
theorem OfSegments.unique {segments segments' : List Segment} {e : Expression}
    (h : OfSegments segments e) (h' : OfSegments segments' e) (hc : Segment.Canonical segments)
    (hc' : Segment.Canonical segments') : segments = segments' := by
  have hempty : ¬Segment.Canonical [.text ""] := fun hc => hc.valid _ List.mem_cons_self rfl
  cases h with
  | none =>
    cases h' with
    | none => rfl
    | text => exact absurd hc' hempty
  | text s =>
    cases h' with
    | none => exact absurd hc hempty
    | text => rfl
  | reference r =>
    cases h'
    rfl
  | «variable» v =>
    cases h'
    rfl
  | template h =>
    cases h'
    rfl

theorem exists_of_parse {source : String} {e : Expression} (h : parse source = .ok e) :
    ∃ segments, Segment.Canonical segments ∧ e = ofSegments segments := by
  obtain ⟨segments, hs, rfl⟩ := map_eq_ok.1 h
  exact ⟨segments, Segment.canonical_of_parseAll hs, rfl⟩

theorem parse_printAll {segments : List Segment} (h : Segment.Canonical segments) :
    parse (Segment.printAll segments) = .ok (ofSegments segments) := by
  rw [parse, h.parseAll_printAll]
  rfl

/-- Reading and writing undo each other: canonical segments are read from what they are written as, and
whatever is read stands for one canonical list of segments, from whose text it is read again. -/
theorem parse_inverse_printAll :
    (∀ segments, Segment.Canonical segments →
      Segment.parseAll (Segment.printAll segments) = .ok segments ∧
        ∃ e, OfSegments segments e ∧ parse (Segment.printAll segments) = .ok e) ∧
    ∀ source e, parse source = .ok e → ∃ segments,
      (Segment.Canonical segments ∧ OfSegments segments e) ∧
      (∀ segments', Segment.Canonical segments' → OfSegments segments' e → segments' = segments) ∧
      parse (Segment.printAll segments) = .ok e := by
  constructor
  · intro segments h
    exact ⟨h.parseAll_printAll, _, ofSegments_spec segments, parse_printAll h⟩
  · intro source e h
    obtain ⟨segments, hc, rfl⟩ := exists_of_parse h
    exact ⟨segments, ⟨hc, ofSegments_spec segments⟩,
      fun segments' hc' h' => h'.unique (ofSegments_spec segments) hc' hc, parse_printAll hc⟩

/-- Dollar signs and braces in all places where they can stand in a text. -/
def dollars : List Segment :=
  [.text "$$\x7bé$\x7b$\x7d", .reference ((Reference.step "a").splat.withAttr "x"), .variable .eachKey,
    .text "$"]

/-- A template that is read back, and one that is written without the blanks it was read with. -/
theorem parse_dollars :
    (Segment.Canonical dollars ∧ Segment.parseAll
      "$$$\x7bé$$\x7b$\x7d$\x7bstep.a[*].x\x7d$\x7beach.key\x7d$" = .ok dollars) ∧
    parse "$\x7b each.key \x7d" = .ok (.variable .eachKey) ∧ ∃ segments,
      OfSegments segments (.variable .eachKey) ∧
        parse (Segment.printAll segments) = .ok (.variable .eachKey) := by
  have hcanonical : Segment.Canonical dollars := by
    refine .cons (by simp [Segment.Valid]) ?_ <| .cons ?_ (by simp [Segment.CanPrecede]) <|
      .cons trivial (by simp [Segment.CanPrecede]) <| .cons (by simp [Segment.Valid]) (by simp) .nil
    · rintro q ⟨⟩
      show _ ≠ _
      decide +kernel
    · have hread : Reference.parse "step.a[*].x" = .ok ((Reference.step "a").splat.withAttr "x") := rfl
      exact Reference.wellFormed_of_parse hread
  have hprint : Segment.printAll dollars =
      "$$$\x7bé$$\x7b$\x7d$\x7bstep.a[*].x\x7d$\x7beach.key\x7d$" := by
    decide +kernel
  have hspaced : parse "$\x7b each.key \x7d" = .ok (.variable .eachKey) := rfl
  obtain ⟨segments, ⟨-, hsegments⟩, -, hparse⟩ := parse_inverse_printAll.2 _ _ hspaced
  refine ⟨⟨hcanonical, ?_⟩, hspaced, segments, hsegments, hparse⟩
  rw [← hprint]
  exact (parse_inverse_printAll.1 dollars hcanonical).1

end Expression

end Workplan
