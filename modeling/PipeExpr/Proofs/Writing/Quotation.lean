import PipeExpr.Proofs.Scanning.QuotedUnits

set_option autoImplicit false

namespace PipeExpr

/-- The text with a backslash put before every `mark`. -/
def covering (mark : Char) (cs : List Char) : List Char :=
  cs.flatMap fun c => if c = mark then ['\\', c] else [c]

theorem covering_append (mark : Char) (cs ds : List Char) :
    covering mark (cs ++ ds) = covering mark cs ++ covering mark ds :=
  List.flatMap_append

/-- A pass over the backslashes and then one over the double quotes. The other way round, the
    backslashes that are put before double quotes would be doubled too. -/
theorem covering_covering (cs : List Char) :
    covering '"' (covering '\\' cs) = cs.flatMap escapeChar := by
  induction cs with
  | nil => rfl
  | cons c cs ih =>
    have first : covering '"' (covering '\\' [c]) = escapeChar c := by
      rcases escapeChar_cases c with ⟨rfl | rfl, -⟩ | ⟨⟨noQuote, noBackslash⟩, eq⟩
      · rfl
      · rfl
      · simp [covering, eq, noQuote, noBackslash]
    rw [← List.singleton_append, covering_append, covering_append, first, ih, List.flatMap_append,
      List.flatMap_singleton]

namespace QuotedUnit

def ofChar (c : Char) : QuotedUnit :=
  if bare : c ≠ '"' ∧ c ≠ '\\' then plain c bare else covered c

theorem ofChar_cases (c : Char) :
    ((c = '"' ∨ c = '\\') ∧ ofChar c = covered c) ∨
      ∃ bare : c ≠ '"' ∧ c ≠ '\\', ofChar c = plain c bare := by
  by_cases bare : c ≠ '"' ∧ c ≠ '\\'
  · exact .inr ⟨bare, dif_pos bare⟩
  · exact .inl ⟨by rwa [← not_or, not_not] at bare, dif_neg bare⟩

theorem text_ofChar (c : Char) : (ofChar c).text = escapeChar c := by
  rcases ofChar_cases c with ⟨special, eq⟩ | ⟨bare, eq⟩
  · rw [eq, text, escapeChar, if_pos special]
  · rw [eq, text, escapeChar, if_neg (not_or.mpr bare)]

theorem meaning_ofChar (c : Char) : (ofChar c).meaning = [c] := by
  rcases ofChar_cases c with ⟨special, eq⟩ | ⟨bare, eq⟩
  · rw [eq, meaning, if_pos special]
  · rw [eq, meaning]

theorem quoted_map_ofChar (cs : List Char) : quoted (cs.map ofChar) = quotation cs := by
  rw [quoted, quotation_eq, List.flatMap_map, funext text_ofChar]

theorem meaning_map_ofChar (cs : List Char) : (cs.map ofChar).flatMap meaning = cs := by
  rw [List.flatMap_map, funext meaning_ofChar, List.flatMap_singleton']

theorem feed_notMem_ofChar (cs : List Char) : covered '\n' ∉ cs.map ofChar := by
  intro mem
  obtain ⟨c, -, eq⟩ := List.mem_map.mp mem
  rcases ofChar_cases c with ⟨rfl | rfl, eq'⟩ | ⟨bare, eq'⟩ <;> rw [eq'] at eq <;> cases eq

end QuotedUnit

theorem Scanner.next_quotation (cs rest : List Char) (l : Location) :
    next ⟨quotation cs ++ rest, l⟩ =
      (.token ⟨.value, .string (String.ofList cs), l, String.ofList (quotation cs)⟩,
        ⟨rest, l.advance (quotation cs)⟩) := by
  have scanned := QuotedUnit.next_quoted (cs.map QuotedUnit.ofChar) rest l
  rw [if_neg (QuotedUnit.feed_notMem_ofChar cs), QuotedUnit.meaning_map_ofChar,
    QuotedUnit.quoted_map_ofChar] at scanned
  exact scanned

theorem quotation_append_inj {cs ds rest rest' : List Char}
    (h : quotation cs ++ rest = quotation ds ++ rest') : cs = ds ∧ rest = rest' := by
  have first := Scanner.next_quotation cs rest .start
  have second := Scanner.next_quotation ds rest' .start
  rw [h, second] at first
  simp only [Prod.mk.injEq, ScanEvent.token.injEq, Token.mk.injEq, Scalar.string.injEq,
    Scanner.mk.injEq, String.ofList_inj] at first
  exact ⟨first.1.2.1.symm, first.2.1.symm⟩

def quotationOf (s : String) : String :=
  String.ofList (quotation s.toList)

/-- The quotation of a text has its backslashes doubled first and its double quotes covered then. In
    front of any other text it is the first token of the source, whole and with the text as its
    value, and the scanner goes on just behind it. No other quotation begins that source. -/
theorem next_source_quotation (s rest : String) :
    (quotationOf s).toList = '"' :: (covering '"' (covering '\\' s.toList) ++ ['"']) ∧
    (Scanner.ofSource (quotationOf s ++ rest)).next =
      (.token ⟨.value, .string s, .start, quotationOf s⟩,
        ⟨rest.toList, .endOf (quotationOf s)⟩) ∧
    ∀ s' rest' : String, quotationOf s ++ rest = quotationOf s' ++ rest' →
      s = s' ∧ rest = rest' := by
  refine ⟨?_, ?_, fun s' rest' eq => ?_⟩
  · rw [quotationOf, String.toList_ofList, covering_covering, quotation_eq]
  · have scanned := Scanner.next_quotation s.toList rest.toList .start
    rw [Location.advance_eq_past, String.ofList_toList] at scanned
    rw [quotationOf, Scanner.ofSource, String.toList_append, Location.endOf, String.toList_ofList]
    exact scanned
  · have lists := congrArg String.toList eq
    rw [quotationOf, quotationOf, String.toList_append, String.toList_append,
      String.toList_ofList, String.toList_ofList] at lists
    obtain ⟨same, behind⟩ := quotation_append_inj lists
    exact ⟨String.toList_inj.mp same, String.toList_inj.mp behind⟩

example :
    (Scanner.ofSource "\"a\\\\\"\"").next =
      (.token ⟨.value, .string "a\\", .start, "\"a\\\\\""⟩, ⟨['"'], ⟨5, 1, 6⟩⟩) := by
  rfl

end PipeExpr
