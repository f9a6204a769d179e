import Mathlib.Data.List.TakeWhile
import MediaPipeline.Json.Printer
import MediaPipeline.Json.Reader
import MediaPipeline.Proofs.Text.Digits
import MediaPipeline.Proofs.Traversal
/-!
# Json/Text — texts read back

A text is read in two passes, and each is followed on its own. `Scans` says which
tokens a run of characters is turned into, wherever it stands between two words;
the runs on both sides of a mark are scanned apart (`Scans.join`). `Reads` says
which value a run of tokens is turned into, inside any containers. Both are put
together from the parts of a value, so the text of a value is read back
(`read?_compact`) where it says all there is to the value (`Legible`): a double is
written in other digits than it is held, and an escape in a name is remembered.
-/


namespace MediaPipeline

namespace Json

open Scanner

variable {cs ds : List Char} {ts us : List Token} {done : List Token} {c : Char} {t : Token}
variable {v : Json} {s : String}

/-! ## Characters to tokens -/

/-- The tokens so far, with the bare word that may have come to its end. -/
def Scanner.settled? (m : Scanner) : Option (List Token) :=
  match m.place with
  | .between => some m.tokens
  | .word letters => endWord m.tokens letters
  | _ => none

theorem Scanner.finish?_eq (m : Scanner) : m.finish? = m.settled?.map List.reverse := by
  obtain ⟨tokens, place⟩ := m
  cases place <;> rfl

/-- A character that is in no bare word is met as it is between two words. -/
theorem Scanner.step_of_settled {m : Scanner} (h : m.settled? = some done)
    (hc : isWordChar c = false) : m.step c = stepBetween done c := by
  obtain ⟨tokens, place⟩ := m
  cases place with
  | between =>
    obtain rfl : tokens = done := Option.some.inj h
    rfl
  | word letters =>
    have hend : endWord tokens letters = some done := h
    simp [Scanner.step, hc, hend]
  | inside q => cases h
  | escape q => cases h
  | unit q value missing => cases h

/-- Characters that stand between two words and are turned into tokens. -/
def Scans (cs : List Char) (ts : List Token) : Prop :=
  ∀ done, ∃ m, cs.foldlM Scanner.step ⟨done, .between⟩ = some m ∧
    m.settled? = some (ts.reverse ++ done)

theorem Scans.nil : Scans [] [] := fun done => ⟨⟨done, .between⟩, rfl, rfl⟩

/-- A mark is no part of a word, no quote and no blank. -/
theorem stepBetween_mark (h : mark? c = some t) :
    isWordChar c = false ∧ ∀ done, stepBetween done c = some ⟨t :: done, .between⟩ := by
  unfold mark? at h
  split at h <;> cases h <;> exact ⟨by decide, fun _ => rfl⟩

/-- **What stands on both sides of a mark is scanned apart.** -/
theorem Scans.join (hcs : Scans cs ts) (hmark : mark? c = some t) (hds : Scans ds us) :
    Scans (cs ++ c :: ds) (ts ++ t :: us) := by
  intro done
  obtain ⟨hword, hstep⟩ := stepBetween_mark hmark
  obtain ⟨m, hm, hsettled⟩ := hcs done
  obtain ⟨m', hm', hsettled'⟩ := hds (t :: (ts.reverse ++ done))
  refine ⟨m', ?_, by rw [hsettled']; simp⟩
  rw [List.foldlM_append, hm]
  show (m.step c).bind _ = _
  rw [step_of_settled hsettled hword, hstep]
  exact hm'

/-- What stands between two marks is scanned apart. -/
theorem Scans.enclosed {opening closing : Char} {t u : Token} (hcs : Scans cs ts)
    (hopen : mark? opening = some t) (hclose : mark? closing = some u) :
    Scans (opening :: (cs ++ [closing])) (t :: (ts ++ [u])) :=
  Scans.nil.join hopen (hcs.join hclose .nil)

/-- Parts between commas are scanned one by one. -/
theorem Scans.intercalate {parts : List (List Char)} {tokens : List (List Token)}
    (h : List.Forall₂ Scans parts tokens) :
    Scans ([','].intercalate parts) ([Token.comma].intercalate tokens) := by
  induction h with
  | nil => exact .nil
  | cons hpart hrest ih =>
    cases hrest with
    | nil => simpa using hpart
    | cons =>
      rw [List.intercalate_cons_cons, List.intercalate_cons_cons, List.append_assoc,
        List.append_assoc]
      exact hpart.join rfl ih

/-! ### Bare words -/

theorem foldlM_word {letters : List Char} (h : ∀ c ∈ cs, isWordChar c = true) :
    cs.foldlM Scanner.step ⟨done, .word letters⟩ = some ⟨done, .word (cs.reverse ++ letters)⟩ := by
  induction cs generalizing letters with
  | nil => rfl
  | cons c cs ih =>
    obtain ⟨hc, h⟩ := List.forall_mem_cons.mp h
    rw [List.foldlM_cons, Scanner.step]
    simp only [hc, if_true]
    show cs.foldlM Scanner.step ⟨done, .word (c :: letters)⟩ = _
    rw [ih h]
    simp

/-- A character of a bare word starts one. -/
theorem stepBetween_word (h : isWordChar c = true) :
    stepBetween done c = some ⟨done, .word [c]⟩ := by
  have hgap : isGap c = false := by
    by_contra hgap
    simp only [isGap, Bool.or_eq_true, beq_iff_eq, Bool.not_eq_false] at hgap
    rcases hgap with ((rfl | rfl) | rfl) | rfl <;> exact absurd h (by decide)
  have hquote : (c == '"') = false := by
    by_contra hquote
    rw [Bool.not_eq_false, beq_iff_eq] at hquote
    subst hquote
    exact absurd h (by decide)
  simp [stepBetween, hgap, hquote, h]

/-- **A bare word is scanned as the value that it names or writes.** -/
theorem Scans.word (hword : s.toList.all isWordChar = true) (hv : bareWord? s = some v) :
    Scans s.toList [.scalar v] := by
  intro done
  rw [List.all_eq_true] at hword
  have hne : s.toList ≠ [] := by
    intro h
    obtain rfl : s = "" := String.toList_eq_nil_iff.mp h
    cases hv
  obtain ⟨c, cs, hcs⟩ := List.exists_cons_of_ne_nil hne
  rw [hcs] at hword ⊢
  obtain ⟨hc, hcs'⟩ := List.forall_mem_cons.mp hword
  refine ⟨⟨done, .word (cs.reverse ++ [c])⟩, ?_, ?_⟩
  · rw [List.foldlM_cons]
    show (stepBetween done c).bind _ = _
    rw [stepBetween_word hc]
    exact foldlM_word hcs'
  · show (bareWord? (String.ofList (cs.reverse ++ [c]).reverse)).map _ = _
    rw [List.reverse_append, List.reverse_reverse, List.reverse_singleton, List.singleton_append,
      ← hcs, String.ofList_toList, hv]
    rfl

/-! ### Quoted texts -/

/-- Whether a character is written by an escape. -/
def isEscaped (c : Char) : Bool := decide (escapeChar c ≠ [c])

/-- A character is written by a short escape, by its number, or as it is. -/
theorem escapeChar_cases (c : Char) :
    (∃ d, escapeChar c = ['\\', d] ∧ d ≠ 'u' ∧ shortEscape? d = some c) ∨
    (c.toNat < 0x20 ∧ escapeChar c = ['\\', 'u', '0', '0', Nat.digitChar (c.toNat / 16),
      Nat.digitChar (c.toNat % 16)]) ∨
    (escapeChar c = [c] ∧ c ≠ '"' ∧ c ≠ '\\' ∧ ¬ c.toNat < 0x20) := by
  have hchar : Char.ofNat c.toNat = c := Char.ofNat_toNat c
  unfold escapeChar
  split_ifs with hquote hslash hfeed hreturn htab hback hform hcontrol
  · exact .inl ⟨_, rfl, by decide, by rw [hquote]; rfl⟩
  · exact .inl ⟨_, rfl, by decide, by rw [hslash]; rfl⟩
  · exact .inl ⟨_, rfl, by decide, by rw [hfeed]; rfl⟩
  · exact .inl ⟨_, rfl, by decide, by rw [hreturn]; rfl⟩
  · exact .inl ⟨_, rfl, by decide, by rw [htab]; rfl⟩
  · exact .inl ⟨_, rfl, by decide, by rw [← hchar, hback]; rfl⟩
  · exact .inl ⟨_, rfl, by decide, by rw [← hchar, hform]; rfl⟩
  · exact .inr (.inl ⟨hcontrol, rfl⟩)
  · exact .inr (.inr ⟨rfl, hquote, hslash, hcontrol⟩)

/-- **A character is scanned as itself,** whether it is written by an escape or
not. -/
theorem foldlM_escapeChar (c : Char) (read : List Char) (escaped : Bool) :
    (escapeChar c).foldlM Scanner.step ⟨done, .inside ⟨read, none, false, escaped⟩⟩ =
      some ⟨done, .inside ⟨c :: read, none, false, escaped || isEscaped c⟩⟩ := by
  unfold isEscaped
  rcases escapeChar_cases c with ⟨d, hesc, hd, hshort⟩ | ⟨hcontrol, hesc⟩ | ⟨hesc, hq, hs, hc⟩
  · simp [hesc, Scanner.step, hd, hshort, Quote.push]
  · have hhigh := Text.hexValue?_digitChar (c.toNat / 16) (by omega)
    have hlow := Text.hexValue?_digitChar (c.toNat % 16) (by omega)
    have hzero : Text.hexValue? '0' = some 0 := rfl
    have hvalue : c.toNat / 16 * 16 + c.toNat % 16 = c.toNat := Nat.div_add_mod' _ _
    have hhalf : ¬ 0xd800 ≤ c.toNat ∧ ¬ 0xdc00 ≤ c.toNat := by omega
    simp [hesc, Scanner.step, hzero, hhigh, hlow, hvalue, Quote.pushUnit, Quote.push, hhalf]
  · simp [hesc, Scanner.step, hq, hs, hc, Quote.push]

theorem foldlM_escapes (cs read : List Char) (escaped : Bool) :
    (cs.flatMap escapeChar).foldlM Scanner.step ⟨done, .inside ⟨read, none, false, escaped⟩⟩ =
      some ⟨done, .inside ⟨cs.reverse ++ read, none, false, escaped || cs.any isEscaped⟩⟩ := by
  induction cs generalizing read escaped with
  | nil => simp
  | cons c cs ih =>
    rw [List.flatMap_cons, List.foldlM_append, foldlM_escapeChar]
    refine (ih (c :: read) (escaped || isEscaped c)).trans ?_
    simp [Bool.or_assoc]

/-- **A quoted text is scanned as the text.** -/
theorem Scans.quoted (s : String) :
    Scans (quoted s).toList [.quoted ⟨some s, s.toList.any isEscaped⟩] := by
  intro done
  have hchars : (Json.quoted s).toList = '"' :: (s.toList.flatMap escapeChar ++ ['"']) := by
    simp [Json.quoted]
  refine ⟨⟨.quoted ⟨some s, s.toList.any isEscaped⟩ :: done, .between⟩, ?_, rfl⟩
  rw [hchars, List.foldlM_cons]
  show (s.toList.flatMap escapeChar ++ ['"']).foldlM Scanner.step ⟨done, .inside {}⟩ = _
  rw [List.foldlM_append, foldlM_escapes]
  simp [Scanner.step, Quote.finish]

/-! ## Tokens to values -/

/-- Tokens that are turned into a value, inside any containers. -/
def Reads (ts : List Token) (v : Json) : Prop :=
  ∀ frames, ts.foldlM Reader.step ⟨.value, frames⟩ = some (Reader.complete v frames)

theorem Reads.scalar (v : Json) : Reads [.scalar v] v := fun _ => rfl

theorem Reads.text (s : String) (escaped : Bool) : Reads [.quoted ⟨some s, escaped⟩] (.text s) :=
  fun _ => rfl

/-- **Parts between commas are read one by one,** up to the mark that closes what
they are in. The induction is over the parts that are left, with those that were
read general. -/
theorem foldlM_parts {α : Type} (start : List α → Reader) (after : List α → α → Reader)
    (closed : List α → Reader) {close : Token} {parts : List (List Token)} {xs : List α}
    (hcomma : ∀ read x, (after read x).step .comma = some (start (x :: read)))
    (hclose : ∀ read x, (after read x).step close = some (closed (x :: read).reverse))
    (hparts : List.Forall₂ (fun ts x => ∀ read, ts.foldlM Reader.step (start read) =
      some (after read x)) parts xs) (hne : xs ≠ []) (read : List α) :
    ([Token.comma].intercalate parts ++ [close]).foldlM Reader.step (start read) =
      some (closed (read.reverse ++ xs)) := by
  induction hparts generalizing read with
  | nil => exact absurd rfl hne
  | @cons ts x parts xs hpart hrest ih =>
    cases hrest with
    | nil =>
      rw [List.intercalate_singleton, List.foldlM_append, hpart]
      show ((after read x).step close).bind _ = _
      rw [hclose]
      simp
    | cons =>
      rw [List.intercalate_cons_cons, List.append_assoc, List.append_assoc, List.foldlM_append,
        hpart]
      show ((after read x).step .comma).bind _ = _
      rw [hcomma]
      refine (ih (List.cons_ne_nil _ _) (x :: read)).trans ?_
      simp

/-- What follows the opening mark of a list is read as what follows a comma,
unless the list closes at once. -/
theorem foldlM_valueOrClose {frames : List Frame} {r : Reader}
    (h : ts.foldlM Reader.step ⟨.value, frames⟩ = some r) (hne : ts ≠ []) :
    ts.foldlM Reader.step ⟨.valueOrClose, frames⟩ = some r := by
  cases ts with
  | nil => exact absurd rfl hne
  | cons t ts =>
    cases t with
    | closeArray => cases h
    | _ => exact h

/-- So is what follows the opening mark of an object. -/
theorem foldlM_nameOrClose {frames : List Frame} {r : Reader}
    (h : ts.foldlM Reader.step ⟨.name [], frames⟩ = some r) (hne : ts ≠ []) :
    ts.foldlM Reader.step ⟨.nameOrClose, frames⟩ = some r := by
  cases ts with
  | nil => exact absurd rfl hne
  | cons t ts =>
    cases t with
    | quoted name => exact h
    | _ => cases h

/-- **A list is read from its items.** -/
theorem Reads.array {parts : List (List Token)} {items : List Json}
    (h : List.Forall₂ Reads parts items) :
    Reads (.openArray :: ([Token.comma].intercalate parts ++ [.closeArray])) (.array items) := by
  intro frames
  show ([Token.comma].intercalate parts ++ [Token.closeArray]).foldlM Reader.step
    ⟨.valueOrClose, .items [] :: frames⟩ = _
  cases h with
  | nil => rfl
  | cons hpart hrest =>
    refine foldlM_valueOrClose ?_ (List.append_ne_nil_of_right_ne_nil _ (List.cons_ne_nil _ _))
    exact foldlM_parts (fun read => ⟨.value, .items read :: frames⟩)
      (fun read v => Reader.complete v (.items read :: frames))
      (fun items => Reader.complete (.array items) frames)
      (fun _ _ => rfl) (fun _ _ => rfl)
      ((List.Forall₂.cons hpart hrest).imp fun _ _ hv read => hv (.items read :: frames))
      (List.cons_ne_nil _ _) []

/-- **An object is read from its members.** -/
theorem Reads.object {parts : List (List Token)} {members : List (Name × Json)}
    (h : List.Forall₂ (fun ts m => ∃ us, ts = .quoted m.1 :: .colon :: us ∧ Reads us m.2)
      parts members) :
    Reads (.openObject :: ([Token.comma].intercalate parts ++ [.closeObject]))
      (.object members) := by
  intro frames
  show ([Token.comma].intercalate parts ++ [Token.closeObject]).foldlM Reader.step
    ⟨.nameOrClose, frames⟩ = _
  cases h with
  | nil => rfl
  | cons hpart hrest =>
    refine foldlM_nameOrClose ?_ (List.append_ne_nil_of_right_ne_nil _ (List.cons_ne_nil _ _))
    refine foldlM_parts (fun read => ⟨.name read, frames⟩)
      (fun read m => Reader.complete m.2 (.members read m.1 :: frames))
      (fun members => Reader.complete (.object members) frames)
      (fun _ _ => rfl) (fun _ _ => rfl)
      ((List.Forall₂.cons hpart hrest).imp ?_) (List.cons_ne_nil _ _) []
    rintro _ m ⟨us, rfl, hus⟩ read
    exact hus (.members read m.1 :: frames)

/-! ## Texts to values -/

/-- A value that its text says in full: its numbers are natural ones that the bits
hold, and no name in it takes an escape. -/
inductive Legible : Json → Prop
  | null : Legible .null
  | bool (b : Bool) : Legible (.bool b)
  | nat {n : Nat} (h : n < Nat.pow 2 64) : Legible (nat n)
  | text (s : String) : Legible (.text s)
  | array {items : List Json} (h : ∀ v ∈ items, Legible v) : Legible (.array items)
  | record {members : List (String × Json)}
      (hnames : ∀ name ∈ members.map Prod.fst, name.toList.any isEscaped = false)
      (h : ∀ m ∈ members, Legible m.2) : Legible (record members)

theorem Legible.list {α : Type} {encode : α → Json} {xs : List α}
    (h : ∀ x ∈ xs, (encode x).Legible) : (list encode xs).Legible :=
  .array (List.forall_mem_map.mpr h)

/-- A record of two members. -/
theorem Legible.pair {first second : String} {w : Json}
    (hfirst : first.toList.any isEscaped = false) (hsecond : second.toList.any isEscaped = false)
    (hv : v.Legible) (hw : w.Legible) : (Json.record [(first, v), (second, w)]).Legible :=
  .record (List.forall_mem_cons.mpr ⟨hfirst, List.forall_mem_singleton.mpr hsecond⟩)
    (List.forall_mem_cons.mpr ⟨hv, List.forall_mem_singleton.mpr hw⟩)

theorem compactItems_eq_map (items : List Json) : compactItems items = items.map compact := by
  induction items with
  | nil => rfl
  | cons v items ih => rw [compactItems, ih, List.map_cons]

/-- The text of a member. -/
def memberText (m : String × Json) : String := quoted m.1 ++ ":" ++ m.2.compact

theorem compactMembers_plain (members : List (String × Json)) :
    compactMembers (members.map fun m => (Name.plain m.1, m.2)) = members.map memberText := by
  induction members with
  | nil => rfl
  | cons m members ih => rw [List.map_cons, compactMembers, ih, List.map_cons]; rfl

theorem all_isWordChar_toString (n : Nat) : (toString n).toList.all isWordChar = true := by
  refine List.all_eq_true.mpr fun c hc => ?_
  have hdigit : c.isDigit = true := Text.isDigit_of_mem_toString hc
  simp [isWordChar, Char.isAlphanum, hdigit]

theorem unsignedNumber?_digits {digits : List Char} (hdigits : ∀ c ∈ digits, Text.isDigit c = true)
    (hwhole : isWholePart digits = true) (negative : Bool) :
    unsignedNumber? negative digits = some (wholeNumber negative digits) := by
  have htake : digits.takeWhile Text.isDigit = digits := List.takeWhile_eq_self_iff.mpr hdigits
  have hdrop : digits.dropWhile Text.isDigit = [] := List.dropWhile_eq_nil_iff.mpr hdigits
  simp [unsignedNumber?, htake, hdrop, hwhole]

theorem bareWord?_null : bareWord? "null" = some .null := by simp [bareWord?]

theorem bareWord?_bool (b : Bool) : bareWord? (bool b).compact = some (.bool b) := by
  cases b <;> simp [bareWord?, compact, scalarText]

/-- A natural number is a bare word. -/
theorem bareWord?_nat {n : Nat} (h : n < Nat.pow 2 64) : bareWord? (toString n) = some (nat n) := by
  have hdigits : ∀ c ∈ (toString n).toList, Text.isDigit c = true :=
    fun c hc => Text.isDigit_of_mem_toString hc
  have hother : ∀ s : String, (∃ c ∈ s.toList, Text.isDigit c = false) → toString n ≠ s := by
    rintro s ⟨c, hc, hfalse⟩ rfl
    exact absurd (hdigits c hc) (by rw [hfalse]; decide)
  have hnull : toString n ≠ "null" := hother _ ⟨'n', by decide, rfl⟩
  have htrue : toString n ≠ "true" := hother _ ⟨'t', by decide, rfl⟩
  have hfalse : toString n ≠ "false" := hother _ ⟨'f', by decide, rfl⟩
  have hwhole : wholeNumber false (toString n).toList = nat n := by
    simp only [wholeNumber, Text.naturalOf_toString, Bool.not_false, Bool.true_and,
      decide_eq_true_eq, if_pos h]
    rfl
  rw [bareWord?, if_neg hnull, if_neg htrue, if_neg hfalse]
  split
  · -- no number starts with a sign
    rename_i rest hrest
    exact absurd (hdigits '-' (hrest ▸ List.mem_cons_self)) (by decide)
  · rw [unsignedNumber?_digits hdigits (Text.isWholePart_toString n), hwhole]

theorem toList_compact_array (items : List Json) : (Json.array items).compact.toList =
    '[' :: ([','].intercalate (items.map fun v => v.compact.toList) ++ [']']) := by
  rw [compact, compactItems_eq_map]
  simp [String.toList_intercalate, Function.comp_def]

theorem toList_compact_record (members : List (String × Json)) :
    (record members).compact.toList =
      '{' :: ([','].intercalate (members.map fun m => (memberText m).toList) ++ ['}']) := by
  rw [record, compact, compactMembers_plain]
  simp [String.toList_intercalate, Function.comp_def]

/-- **The text of a value is scanned and read.** -/
theorem Legible.scans_reads (h : v.Legible) :
    ∃ ts, Scans v.compact.toList ts ∧ Reads ts v := by
  induction h with
  | null => exact ⟨_, .word (s := "null") rfl bareWord?_null, .scalar _⟩
  | bool b =>
    cases b with
    | false => exact ⟨_, .word (s := "false") rfl (bareWord?_bool false), .scalar _⟩
    | true => exact ⟨_, .word (s := "true") rfl (bareWord?_bool true), .scalar _⟩
  | nat h =>
    exact ⟨_, .word (all_isWordChar_toString _) (bareWord?_nat h), .scalar _⟩
  | text s => exact ⟨_, .quoted s, .text s _⟩
  | @array items _ ih =>
    obtain ⟨parts, hparts⟩ := Traversal.exists_forall₂ ih
    have hscans := List.forall₂_map_left_iff.mpr (hparts.imp fun _ _ h => h.1)
    refine ⟨_, ?_, .array (hparts.flip.imp fun _ _ h => h.2)⟩
    rw [toList_compact_array]
    exact (Scans.intercalate hscans).enclosed rfl rfl
  | @record members hnames _ ih =>
    have hmember : ∀ m ∈ members, ∃ ts, Scans (memberText m).toList ts ∧
        ∃ us, ts = .quoted (.plain m.1) :: .colon :: us ∧ Reads us m.2 := by
      intro m hm
      obtain ⟨us, hscans, hreads⟩ := ih m hm
      have htext := (Scans.quoted m.1).join (c := ':') rfl hscans
      have hchars : (memberText m).toList = (quoted m.1).toList ++ ':' :: m.2.compact.toList := by
        simp [memberText]
      rw [hnames m.1 (List.mem_map_of_mem hm), ← hchars] at htext
      exact ⟨_, htext, us, rfl, hreads⟩
    obtain ⟨parts, hparts⟩ := Traversal.exists_forall₂ hmember
    have hscans := List.forall₂_map_left_iff.mpr (hparts.imp fun _ _ h => h.1)
    refine ⟨_, ?_, .object (List.forall₂_map_right_iff.mpr (hparts.flip.imp fun _ _ h => h.2))⟩
    rw [toList_compact_record]
    exact (Scans.intercalate hscans).enclosed rfl rfl

/-- **What was written is read back.** -/
theorem read?_compact (h : v.Legible) : read? v.compact = some v := by
  obtain ⟨ts, hscans, hreads⟩ := h.scans_reads
  obtain ⟨m, hm, hsettled⟩ := hscans []
  have htokens : tokens? v.compact = some ts := by
    rw [tokens?, show ({} : Scanner) = ⟨[], .between⟩ from rfl, hm]
    show m.finish? = some ts
    rw [Scanner.finish?_eq, hsettled]
    simp
  have hread : ts.foldlM Reader.step {} = some (Reader.complete v []) := hreads []
  simp [read?, htokens, hread]
  rfl

end Json

end MediaPipeline
