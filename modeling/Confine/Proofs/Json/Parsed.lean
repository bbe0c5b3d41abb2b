import Confine.Json.Parser
import Confine.Proofs.Json.Tokens

/-!
# The document of a written value

* `Json.takeTokens_value` — the tokens of a value are its document, wherever a value may stand;
* `Json.Doc.ofText?_compact`, `Json.Doc.ofText?_indented` — **a text that is written for a value is read as its
  document**, in both layouts.
-/

namespace Confine.Json

open Confine.Text (Glyph)

/-! ### Documents from tokens -/

theorem takeTokens_firstItem (frames : List Frame) (v : Json) (rest : List Token) :
    takeTokens (.firstItem frames) (v.tokens ++ rest) =
      takeTokens (.value frames) (v.tokens ++ rest) := by
  cases v <;> simp [tokens, takeTokens, takeToken]

mutual

/-- **The tokens of a value complete its document.** -/
theorem takeTokens_value (frames : List Frame) (v : Json) (rest : List Token) :
    takeTokens (.value frames) (v.tokens ++ rest) = takeTokens (complete v.toDoc frames) rest := by
  match v with
  | .null | .bool _ | .int _ | .real _ | .str _ =>
    simp [tokens, takeTokens, takeToken, beginValue, toDoc]
  | .arr [] =>
    simp [tokens, itemTokens, takeTokens, takeToken, beginValue, closeFrame, toDoc, toDocs]
  | .arr (v :: items) =>
    have hopen : takeTokens (.value frames) ((Json.arr (v :: items)).tokens ++ rest) =
        takeTokens (.firstItem (.arr [] :: frames))
          (v.tokens ++ (itemTokens false items ++ .rightBracket :: rest)) := by
      simp [tokens, itemTokens, takeTokens, takeToken, beginValue]
    rw [hopen, takeTokens_firstItem, takeTokens_value (.arr [] :: frames) v]
    exact takeTokens_items frames [v.toDoc] items rest
  | .obj [] =>
    simp [tokens, fieldTokens, takeTokens, takeToken, beginValue, closeFrame, toDoc, toDocFields]
  | .obj ((k, v) :: fields) =>
    have hopen : takeTokens (.value frames) ((Json.obj ((k, v) :: fields)).tokens ++ rest) =
        takeTokens (.value (.obj [] (some k) :: frames))
          (v.tokens ++ (fieldTokens false fields ++ .rightBrace :: rest)) := by
      simp [tokens, fieldTokens, takeTokens, takeToken, beginValue, beginField]
    rw [hopen, takeTokens_value (.obj [] (some k) :: frames) v]
    exact takeTokens_fields frames [(some k, v.toDoc)] fields rest

/-- The items behind the first ones of an array. -/
theorem takeTokens_items (frames : List Frame) (rev : List Doc) (items : List Json)
    (rest : List Token) :
    takeTokens (.more (.arr rev :: frames)) (itemTokens false items ++ .rightBracket :: rest) =
      takeTokens (complete (.arr (rev.reverse ++ toDocs items)) frames) rest := by
  match items with
  | [] => simp [itemTokens, takeTokens, takeToken, closeFrame, toDocs]
  | v :: items =>
    have hcomma : takeTokens (.more (.arr rev :: frames))
          (itemTokens false (v :: items) ++ .rightBracket :: rest) =
        takeTokens (.value (.arr rev :: frames))
          (v.tokens ++ (itemTokens false items ++ .rightBracket :: rest)) := by
      simp [itemTokens, takeTokens, takeToken]
    rw [hcomma, takeTokens_value (.arr rev :: frames) v]
    refine (takeTokens_items frames (v.toDoc :: rev) items rest).trans ?_
    simp [toDocs]

/-- The fields behind the first ones of an object. -/
theorem takeTokens_fields (frames : List Frame) (rev : List (Option String × Doc))
    (fields : List (String × Json)) (rest : List Token) :
    takeTokens (.more (.obj rev none :: frames)) (fieldTokens false fields ++ .rightBrace :: rest) =
      takeTokens (complete (.obj (rev.reverse ++ toDocFields fields)) frames) rest := by
  match fields with
  | [] => simp [fieldTokens, takeTokens, takeToken, closeFrame, toDocFields]
  | (k, v) :: fields =>
    have hcomma : takeTokens (.more (.obj rev none :: frames))
          (fieldTokens false ((k, v) :: fields) ++ .rightBrace :: rest) =
        takeTokens (.value (.obj rev (some k) :: frames))
          (v.tokens ++ (fieldTokens false fields ++ .rightBrace :: rest)) := by
      simp [fieldTokens, takeTokens, takeToken, beginField]
    rw [hcomma, takeTokens_value (.obj rev (some k) :: frames) v]
    refine (takeTokens_fields frames ((some k, v.toDoc) :: rev) fields rest).trans ?_
    simp [toDocFields]

end

/-! ### Documents from texts -/

theorem Doc.ofText?_of_ends {out : String} {v : Json} (h : Ends out v.tokens) :
    Doc.ofText? out = some v.toDoc := by
  have hparse := takeTokens_value [] v []
  rw [List.append_nil] at hparse
  simp only [Doc.ofText?, Doc.ofGlyphs?, h.tokens?_eq, Option.bind_eq_bind, Option.bind_some,
    hparse]
  rfl

/-- **A compact text is read as it was written.** -/
theorem Doc.ofText?_compact {v : Json} (hv : Exact v) : Doc.ofText? v.compact = some v.toDoc :=
  Doc.ofText?_of_ends (write_ends hv closed_empty)

/-- **An indented text is read as it was written**, also with a line feed at its end. -/
theorem Doc.ofText?_indented {v : Json} (hv : Exact v) :
    Doc.ofText? v.indented = some v.toDoc ∧ Doc.ofText? (v.indented ++ "\n") = some v.toDoc := by
  have h : Ends v.indented v.tokens := writeIndented_ends hv 0 closed_empty
  have htext : v.indented ++ "\n" = v.indented.push '\n' := by simp [← String.toList_inj]
  refine ⟨Doc.ofText?_of_ends h, ?_⟩
  rw [htext]
  exact Doc.ofText?_of_ends (.closed (h.blank (.inr rfl)))

end Confine.Json
