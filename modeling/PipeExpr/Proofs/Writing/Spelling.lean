import PipeExpr.Proofs.Grammar.Canonical
import PipeExpr.Proofs.Scanning.Lexemes

set_option autoImplicit false

namespace PipeExpr
open Terminal (symbol)
open PipeExpr.Expr (parenthesized)

/-- The text goes on with a character that ends every lexeme, or not at all. -/
def Delimited (rest : List Char) : Prop :=
  ∀ c, rest.head? = some c → c ∈ [' ', ')', ']', '}', ',']

/-- In front of a delimiter the text is scanned into the terminals. -/
def Spells (text : List Char) (ts : List Terminal) : Prop :=
  ∀ rest as, Delimited rest → Lexes rest as → Lexes (text ++ rest) (ts ++ as)

theorem Delimited.nil : Delimited [] := nofun

theorem delimited_cons {c : Char} (h : c ∈ [' ', ')', ']', '}', ',']) (rest : List Char) :
    Delimited (c :: rest) := by
  rintro d ⟨⟩
  exact h

theorem Delimited.stops {rest : List Char} {p : Char → Bool} (h : Delimited rest)
    (delimiters : [' ', ')', ']', '}', ','].any p = false) : Stops p rest := by
  intro c head
  rw [← Bool.not_eq_true]
  exact List.any_eq_false.mp delimiters c (h c head)

theorem Delimited.noPoint {rest : List Char} (h : Delimited rest) : rest.head? ≠ some '.' := by
  intro head
  exact absurd (h '.' head) (by decide)

theorem Spells.lexes {text : List Char} {ts : List Terminal} (h : Spells text ts) :
    Lexes text ts := by
  have all := h [] [] .nil .nil
  rw [List.append_nil, List.append_nil] at all
  exact all

theorem integerLimit_le : integerLimit ≤ 2 ^ 1024 := by
  unfold integerLimit
  generalize 1024 = k
  exact Nat.sub_le ..

theorem length_toDigits_le {n : Nat} (h : n < integerLimit) :
    (Nat.toDigits 10 n).length ≤ maxIntegerDigits := by
  have powers {k : Nat} (le : k ≤ maxIntegerDigits) : 2 ^ k ≤ 10 ^ maxIntegerDigits :=
    (Nat.pow_le_pow_left (by decide) k).trans (Nat.pow_le_pow_right (by decide) le)
  rw [Nat.length_toDigits_le_iff (by decide) (by decide)]
  exact Nat.lt_of_lt_of_le h (Nat.le_trans integerLimit_le (powers (by decide)))

namespace Spells

theorem quotation (s : String) : Spells (quotation s.toList) [⟨.value, .string s⟩] :=
  fun _ _ _ h => .quotation s h

theorem integer {n : Nat} (small : n < integerLimit) :
    Spells (Nat.toDigits 10 n) [⟨.value, .int n⟩] :=
  fun _ _ delimited h => .integer (length_toDigits_le small) (delimited.stops rfl)
    delimited.noPoint h

theorem float (m : Magnitude) :
    Spells m.shortest.positional [⟨.value, .float (.finite false m)⟩] :=
  fun _ _ delimited h => .float m (delimited.stops rfl) h

theorem null : Spells ['n', 'u', 'l', 'l'] [⟨.value, .null⟩] :=
  fun _ _ delimited h =>
    .word (a := ⟨.value, .null⟩) rfl (List.all_eq_true.mp rfl) (delimited.stops rfl) (by decide) h

theorem boolean (b : Bool) :
    Spells (if b then ['t', 'r', 'u', 'e'] else ['f', 'a', 'l', 's', 'e'])
      [⟨.value, .bool b⟩] := by
  intro rest as delimited h
  cases b with
  | true =>
    exact .word (a := ⟨.value, .bool true⟩) rfl (List.all_eq_true.mp rfl) (delimited.stops rfl)
      (by decide) h
  | false =>
    exact .word (a := ⟨.value, .bool false⟩) rfl (List.all_eq_true.mp rfl) (delimited.stops rfl)
      (by decide) h

end Spells

theorem joined_cons_cons (separator first second : List Char) (others : List (List Char)) :
    joined separator (first :: second :: others) =
      first ++ separator ++ joined separator (second :: others) :=
  rfl

theorem joined_eq_intercalate (separator : List Char) (texts : List (List Char)) :
    joined separator texts = separator.intercalate texts := by
  induction texts with
  | nil => rfl
  | cons first others ih =>
    cases others with
    | nil => rw [joined, List.intercalate_singleton]
    | cons second others => rw [joined_cons_cons, ih, List.intercalate_cons_cons]

theorem Lexes.pathSegment {s : String} {rest : List Char} {as : List Terminal}
    (h : s = rootMarker ∨ IsIdentifier s) (stops : Stops isWordPart rest) (lexes : Lexes rest as) :
    Lexes (s.toList ++ rest) (⟨.reference, .string s⟩ :: as) := by
  rcases h with rfl | identifier
  · exact lexes.root
  · exact lexes.name identifier stops

theorem Spells.path {first : String} {others : List String}
    (head : first = rootMarker ∨ IsIdentifier first) (tail : ∀ s ∈ others, IsIdentifier s) :
    Spells (joined ['.'] ((first :: others).map String.toList))
      (⟨.reference, .string first⟩ :: Expr.segmentTerminals others) := by
  intro rest as delimited h
  induction others generalizing first with
  | nil => exact h.pathSegment head (delimited.stops rfl)
  | cons second others ih =>
    obtain ⟨identifier, tail⟩ := List.forall_mem_cons.mp tail
    have behind := (ih (.inr identifier) tail).structural (c := '.') rfl
    have stops : Stops isWordPart
        ('.' :: (joined ['.'] ((second :: others).map String.toList) ++ rest)) := by
      rintro c ⟨⟩
      decide
    have whole := behind.pathSegment head stops
    rw [List.map_cons, List.map_cons, joined_cons_cons, List.append_assoc, List.append_assoc]
    exact whole

theorem Spells.bracket {text : List Char} {ts : List Terminal} (opener closer : Char)
    (opens : isStructural opener = true) (closes : isStructural closer = true)
    (delimiter : closer ∈ [' ', ')', ']', '}', ',']) (h : Spells text ts) :
    Spells (opener :: text ++ [closer])
      (symbol (String.ofList [opener]) :: ts ++ [symbol (String.ofList [closer])]) := by
  intro rest as _ lexes
  have inside := h (closer :: rest) _ (delimited_cons delimiter rest) (lexes.structural closes)
  have whole := inside.structural opens
  rw [List.append_assoc, List.append_assoc]
  exact whole

theorem Spells.grouped {text : List Char} {ts : List Terminal} (needed : Bool)
    (h : Spells text ts) : Spells (grouped needed text) (parenthesized needed ts) := by
  cases needed with
  | true => exact h.bracket '(' ')' rfl rfl (by decide)
  | false => exact h

theorem Spells.nil : Spells [] [] :=
  fun _ _ _ h => h

/-- The separator ends what stands before it, and is itself scanned into the terminals. -/
structure Separates (separator : List Char) (ts : List Terminal) : Prop where
  delimits : ∀ rest, Delimited (separator ++ rest)
  spells : ∀ rest as, Lexes rest as → Lexes (separator ++ rest) (ts ++ as)

theorem separates_space : Separates [' '] [] :=
  ⟨fun rest => delimited_cons (by decide) rest, fun _ _ h => h.space⟩

theorem separates_comma : Separates [',', ' '] [symbol ","] :=
  ⟨fun rest => delimited_cons (by decide) (' ' :: rest),
    fun _ _ h => h.space.structural (c := ',') rfl⟩

theorem separates_pipe : Separates [' ', '|', ' '] [symbol "|"] :=
  ⟨fun rest => delimited_cons (by decide) ('|' :: ' ' :: rest),
    fun _ _ h => (h.space.structural (c := '|') rfl).space⟩

theorem Spells.joined {separator : List Char} {ts : List Terminal}
    (separates : Separates separator ts) {texts : List (List Char)}
    {tss : List (List Terminal)} (h : List.Forall₂ Spells texts tss) :
    Spells (joined separator texts) (ts.intercalate tss) := by
  induction h with
  | nil => exact .nil
  | @cons text as texts tss first others ih =>
    cases others with
    | nil =>
      rw [List.intercalate_singleton]
      exact first
    | cons second others =>
      rw [List.intercalate_cons_cons]
      intro rest bs delimited lexes
      have behind := separates.spells _ _ (ih rest bs delimited lexes)
      have whole := first _ _ (separates.delimits _) behind
      rw [joined_cons_cons, List.append_assoc, List.append_assoc, List.append_assoc,
        List.append_assoc]
      exact whole

namespace Expr

/-- The tree has a source text that spells its canonical terminals. -/
def Written (e : Expr) : Prop :=
  ∃ text, e.write = .ok text ∧ Spells text e.terminals

theorem writeList_spells {es : List Expr} (group : Expr → Bool) (h : ∀ e ∈ es, e.Written) :
    ∃ texts, writeList group es = .ok texts ∧
      List.Forall₂ Spells texts (terminalsList group es) := by
  induction es with
  | nil => exact ⟨[], rfl, .nil⟩
  | cons e es ih =>
    obtain ⟨⟨text, written, spells⟩, others⟩ := List.forall_mem_cons.mp h
    obtain ⟨texts, writtenList, spellsList⟩ := ih others
    refine ⟨grouped (group e) text :: texts, ?_, .cons (spells.grouped _) spellsList⟩
    simp only [writeList, written, writtenList]
    rfl

theorem writeMembers_spells {ms : List (String × Expr)} (h : ∀ m ∈ ms, m.2.Written) :
    ∃ texts, writeMembers ms = .ok texts ∧ List.Forall₂ Spells texts (terminalsMembers ms) := by
  induction ms with
  | nil => exact ⟨[], rfl, .nil⟩
  | cons m ms ih =>
    obtain ⟨⟨text, written, spells⟩, others⟩ := List.forall_mem_cons.mp h
    obtain ⟨texts, writtenList, spellsList⟩ := ih others
    refine ⟨(quotation m.1.toList ++ [':', ' '] ++ text) :: texts, ?_, .cons ?_ spellsList⟩
    · simp only [writeMembers, written, writtenList]
      rfl
    · intro rest as delimited lexes
      have value := spells rest as delimited lexes
      have behind := (value.space.structural (c := ':') rfl).quotation m.1
      rw [List.append_assoc, List.append_assoc]
      exact behind

theorem written_array {es : List Expr} (h : ∀ e ∈ es, e.Written) : (array es).Written := by
  obtain ⟨texts, written, spells⟩ := writeList_spells (fun _ => false) h
  have inside : Spells (joined [',', ' '] texts)
      ([symbol ","].intercalate (terminalsList (fun _ => false) es)) :=
    .joined separates_comma spells
  refine ⟨'[' :: joined [',', ' '] texts ++ [']'], ?_, ?_⟩
  · simp only [write, written]
    rfl
  · exact inside.bracket '[' ']' rfl rfl (by decide)

theorem written_object {ms : List (String × Expr)} (h : ∀ m ∈ ms, m.2.Written) :
    (object ms).Written := by
  obtain ⟨texts, written, spells⟩ := writeMembers_spells h
  have inside : Spells (joined [',', ' '] texts)
      ([symbol ","].intercalate (terminalsMembers ms)) :=
    .joined separates_comma spells
  refine ⟨'{' :: joined [',', ' '] texts ++ ['}'], ?_, ?_⟩
  · simp only [write, written]
    rfl
  · exact inside.bracket '{' '}' rfl rfl (by decide)

theorem written_application {function : Expr} {arguments : List Expr}
    (h : function.Written) (h' : ∀ e ∈ arguments, e.Written) :
    (application function arguments).Written := by
  obtain ⟨text, written, spells⟩ := h
  obtain ⟨texts, writtenList, spellsList⟩ := writeList_spells isComposite h'
  have writtenList' : writeList (fun e => e.isApplication || e.isPipeline) arguments = .ok texts :=
    writtenList
  refine ⟨joined [' '] (grouped function.isComposite text :: texts), ?_, ?_⟩
  · simp only [write, written, writtenList']
    rfl
  · exact .joined separates_space (.cons (spells.grouped _) spellsList)

theorem written_pipeline {stages : List Expr} (h : ∀ e ∈ stages, e.Written) :
    (pipeline stages).Written := by
  obtain ⟨texts, written, spells⟩ := writeList_spells isPipeline h
  refine ⟨joined [' ', '|', ' '] texts, ?_, ?_⟩
  · simp only [write, written]
    rfl
  · exact .joined separates_pipe spells

/-- Every well-formed tree has a source text, which is scanned into its canonical terminals. -/
theorem written_of_wellFormed {e : Expr} (h : e.WellFormed) : e.Written := by
  induction h with
  | string s => exact ⟨_, rfl, .quotation s⟩
  | boolean b => exact ⟨_, rfl, .boolean b⟩
  | null => exact ⟨_, rfl, .null⟩
  | integer n small =>
    have inRange : n < integerLimit := Int.ofNat_lt.mp small
    have notNegative : ¬(n : Int) < 0 := by omega
    refine ⟨Nat.toDigits 10 n, ?_, .integer inRange⟩
    simp only [write, ScalarType.write, Scalar.numeral, if_neg notNegative, Int.toNat_natCast,
      if_neg (Nat.not_le_of_lt inRange)]
  | float m => exact ⟨_, rfl, .float m⟩
  | array _ ih => exact written_array ih
  | object _ _ ih => exact written_object ih
  | reference first others => exact ⟨_, rfl, .path first others⟩
  | application _ _ _ ihFunction ih => exact written_application ihFunction ih
  | pipeline _ _ ih => exact written_pipeline ih

end Expr

end PipeExpr
