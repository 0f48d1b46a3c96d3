import ApiModel.Json.Reading
import ApiModel.Proofs.Json.Tokens

/-! Reading what was written. The tokens of a value take the reader from a place for a value to the
place behind it, with the value put into the topmost frame, whatever the frames hold already. -/

namespace ApiModel.Json.Reading

def run (s : State) (tokens : List Token) : State := tokens.foldl step s

theorem run_append (s : State) (ts us : List Token) : run s (ts ++ us) = run (run s ts) us :=
  List.foldl_append

theorem run_firstItem (j : Json) (stack : List Frame) :
    run (.inside .firstItem stack) j.tokens = run (.inside .value stack) j.tokens := by
  have same {t : Token} (h : t ≠ .arrayEnd) (ts : List Token) :
      run (.inside .firstItem stack) (t :: ts) = run (.inside .value stack) (t :: ts) := by
    have first : step (.inside .firstItem stack) t = step (.inside .value stack) t := if_neg h
    rw [run, run, List.foldl_cons, List.foldl_cons, first]
  match j with
  | null | bool _ | string _ | array [] | array (_ :: _) | object [] | object (_ :: _) =>
    exact same (by rintro ⟨⟩) _

-- The first item or member is read as if it came behind a comma, so one induction does for both.
mutual

theorem run_tokens (stack : List Frame) : (j : Json) →
    run (.inside .value stack) j.tokens = .behind (Draft.ofJson j) stack
  | null | bool _ | string _ | array [] | object [] => rfl
  | array (item :: items) => by
    have more := run_moreItems stack [] (item :: items)
    have tokens : (array (item :: items)).tokens =
        [.arrayStart] ++ (item.tokens ++ moreItemTokens items) ++ [.arrayEnd] := rfl
    have opened : run (.inside .value stack) [.arrayStart] =
        .inside .firstItem (.array [] :: stack) := rfl
    have first : run (.inside .firstItem (.array [] :: stack)) (item.tokens ++ moreItemTokens items) =
        run (.inside .next (.array [] :: stack)) (moreItemTokens (item :: items)) := by
      rw [run_append, run_firstItem, ← run_append]
      rfl
    have closed (before : List Draft) : run (.inside .next (.array before :: stack)) [.arrayEnd] =
        .behind (.array before.reverse none) stack := rfl
    rw [tokens, run_append, run_append, opened, first, more, closed, List.append_nil,
      List.reverse_reverse]
    rfl
  | object ((key, value) :: members) => by
    have more := run_moreMembers stack [] ((key, value) :: members)
    have tokens : (object ((key, value) :: members)).tokens =
        [.objectStart] ++ (.string (some key) :: .colon :: value.tokens ++ moreMemberTokens members)
          ++ [.objectEnd] := rfl
    have first : run (run (.inside .value stack) [.objectStart])
        (.string (some key) :: .colon :: value.tokens ++ moreMemberTokens members) =
          run (.inside .next (.object [] none :: stack))
            (moreMemberTokens ((key, value) :: members)) := rfl
    have closed (before : List (Key × Draft)) :
        run (.inside .next (.object before none :: stack)) [.objectEnd] =
          .behind (.object before.reverse none) stack := rfl
    rw [tokens, run_append, run_append, first, more, closed, List.append_nil, List.reverse_reverse]
    rfl

theorem run_moreItems (stack : List Frame) (before : List Draft) : (items : List Json) →
    run (.inside .next (.array before :: stack)) (moreItemTokens items) =
      .inside .next (.array ((Draft.ofItems items).reverse ++ before) :: stack)
  | [] => rfl
  | item :: items => by
    have value := run_tokens (.array before :: stack) item
    have more := run_moreItems stack (Draft.ofJson item :: before) items
    have tokens : moreItemTokens (item :: items) =
        [.comma] ++ item.tokens ++ moreItemTokens items := rfl
    have comma : run (.inside .next (.array before :: stack)) [.comma] =
        .inside .value (.array before :: stack) := rfl
    have behind : State.behind (Draft.ofJson item) (.array before :: stack) =
        .inside .next (.array (Draft.ofJson item :: before) :: stack) := rfl
    rw [tokens, run_append, run_append, comma, value, behind, more, Draft.ofItems,
      List.reverse_cons, List.append_assoc, List.singleton_append]

theorem run_moreMembers (stack : List Frame) (before : List (Key × Draft)) :
    (members : List (String × Json)) →
    run (.inside .next (.object before none :: stack)) (moreMemberTokens members) =
      .inside .next (.object ((Draft.ofMembers members).reverse ++ before) none :: stack)
  | [] => rfl
  | (key, value) :: members => by
    let member : Key × Draft := (.string (some key), Draft.ofJson value)
    have read := run_tokens (.object before (some (.string (some key))) :: stack) value
    have more := run_moreMembers stack (member :: before) members
    have tokens : moreMemberTokens ((key, value) :: members) =
        [.comma, .string (some key), .colon] ++ value.tokens ++ moreMemberTokens members := rfl
    have named : run (.inside .next (.object before none :: stack))
        [.comma, .string (some key), .colon] =
          .inside .value (.object before (some (.string (some key))) :: stack) := rfl
    have behind : State.behind (Draft.ofJson value)
        (.object before (some (.string (some key))) :: stack) =
          .inside .next (.object (member :: before) none :: stack) := rfl
    rw [tokens, run_append, run_append, named, read, behind, more, Draft.ofMembers,
      List.reverse_cons, List.append_assoc, List.singleton_append]

end

theorem ofTokens_tokens (j : Json) : ofTokens j.tokens = { value := Draft.ofJson j } := by
  have whole : run (.inside .value []) j.tokens = .whole (Draft.ofJson j) := run_tokens [] j
  show (run (.inside .value []) j.tokens).finish = _
  rw [whole]
  rfl

/-- A written text is read as the value that it was written for, and nothing follows it. -/
theorem ofText_pretty (j : Json) : ofText j.pretty = { value := Draft.ofJson j } := by
  rw [ofText, scan_pretty, ofTokens_tokens]

end ApiModel.Json.Reading
