import AnsiMarkup.Proofs.Json.Numerals

namespace AnsiMarkup

namespace Json

namespace Lexer

theorem step_between (before : List Token) (u : CodeUnit) :
    step ⟨before, .between⟩ u = some (start before u) := rfl

theorem step_word (before : List Token) (units : Text) (u : CodeUnit) :
    step ⟨before, .word units⟩ u =
      if endsWord u then (wordToken? units.reverse).map fun token => start (token :: before) u
      else some ⟨before, .word (u :: units)⟩ := rfl

theorem finish_word (before : List Token) (units : Text) :
    finish ⟨before, .word units⟩ =
      (wordToken? units.reverse).map fun token => (token :: before).reverse := rfl

end Lexer

theorem hexDigits_one (n : Nat) (small : n < 16) :
    hexDigits n 1 = Text.ofChar (Nat.digitChar n) := by
  have all : ∀ d < 16, hexDigits d 1 = Text.ofChar (Nat.digitChar d) := by decide
  exact all n small

theorem hexDigits_succ (n width : Nat) :
    hexDigits n (width + 2) =
      hexDigits (n / 16) (width + 1) ++ Text.ofChar (Nat.digitChar (n % 16)) := by
  have units : ∀ d < 16, (Text.ofChar (Nat.digitChar d)).length = 1 := by decide
  have last := units (n % 16) (Nat.mod_lt n (by decide))
  simp only [hexDigits]
  rw [Nat.toDigits_eq_if (by decide)]
  split
  · next small =>
    have zero : (Nat.toDigits 16 0).flatMap Text.ofChar = [48] := rfl
    rw [Nat.mod_eq_of_lt small] at last
    rw [Nat.div_eq_of_lt small, Nat.mod_eq_of_lt small, zero, List.flatMap_singleton, last,
      List.length_singleton, Nat.add_sub_cancel, ← List.replicate_succ']
    rfl
  · next large =>
    rw [List.flatMap_append, List.flatMap_singleton, List.length_append, last, ← List.append_assoc]
    congr 3
    omega

theorem hexDigit?_digitChar (d : Nat) (small : d < 16) :
    ∃ u, Text.ofChar (Nat.digitChar d) = [u] ∧ hexDigit? u = some d := by
  have all : ∀ d < 16, (Text.ofChar (Nat.digitChar d)).map hexDigit? = [some d] := by decide
  obtain ⟨u, same, value⟩ := List.map_eq_singleton_iff.mp (all d small)
  exact ⟨u, same, value⟩

theorem step_hex (before : List Token) (units : Text) (digits value digit : Nat) (u : CodeUnit)
    (read : hexDigit? u = some digit) :
    Lexer.step ⟨before, .hex units digits value⟩ u =
      some ⟨before, if digits = 3 then .string ((value * 16 + digit).toUInt16 :: units)
        else .hex units (digits + 1) (value * 16 + digit)⟩ := by
  simp only [Lexer.step, read, Option.map_some]
  split <;> rfl

theorem foldlM_hexDigits (u : CodeUnit) (before : List Token) (units : Text) :
    (hexDigits u.toNat 4).foldlM Lexer.step ⟨before, .hex units 0 0⟩ =
      some ⟨before, .string (u :: units)⟩ := by
  have size := u.toNat_lt
  obtain ⟨a, a_unit, a_value⟩ := hexDigit?_digitChar (u.toNat / 16 / 16 / 16) (by omega)
  obtain ⟨b, b_unit, b_value⟩ := hexDigit?_digitChar (u.toNat / 16 / 16 % 16) (by omega)
  obtain ⟨c, c_unit, c_value⟩ := hexDigit?_digitChar (u.toNat / 16 % 16) (by omega)
  obtain ⟨d, d_unit, d_value⟩ := hexDigit?_digitChar (u.toNat % 16) (by omega)
  have whole : (((0 * 16 + u.toNat / 16 / 16 / 16) * 16 + u.toNat / 16 / 16 % 16) * 16 +
      u.toNat / 16 % 16) * 16 + u.toNat % 16 = u.toNat := by omega
  rw [hexDigits_succ, hexDigits_succ, hexDigits_succ, hexDigits_one _ (by omega), a_unit, b_unit,
    c_unit, d_unit]
  calc
    [a, b, c, d].foldlM Lexer.step ⟨before, .hex units 0 0⟩
      = some ⟨before, .string (((((0 * 16 + u.toNat / 16 / 16 / 16) * 16 + u.toNat / 16 / 16 % 16) *
          16 + u.toNat / 16 % 16) * 16 + u.toNat % 16).toUInt16 :: units)⟩ := by
        simp only [List.foldlM_cons, step_hex _ _ _ _ _ _ a_value, step_hex _ _ _ _ _ _ b_value,
          step_hex _ _ _ _ _ _ c_value, step_hex _ _ _ _ _ _ d_value, Option.bind_eq_bind,
          Option.bind_some, Nat.reduceEqDiff, OfNat.zero_ne_ofNat, if_false, if_true]
        rfl
    _ = some ⟨before, .string (u :: units)⟩ := by
      rw [whole, Nat.toUInt16, UInt16.ofNat_toNat]

theorem foldlM_escapeUnit (u : CodeUnit) (before : List Token) (units : Text) :
    (escapeUnit u).foldlM Lexer.step ⟨before, .string units⟩ =
      some ⟨before, .string (u :: units)⟩ := by
  unfold escapeUnit
  split
  iterate 7 rfl
  next quote backslash _ _ _ _ _ =>
    split
    · exact foldlM_hexDigits u before units
    · next shown =>
      simp only [List.foldlM_cons, List.foldlM_nil, Lexer.step, Json.quote, CodeUnit.backslash]
      rw [if_neg quote, if_neg backslash, if_neg shown]
      rfl

theorem foldlM_escapeLone (u : CodeUnit) (before : List Token) (units : Text) :
    (escapeLone u).foldlM Lexer.step ⟨before, .string units⟩ =
      some ⟨before, .string (u :: units)⟩ := by
  unfold escapeLone
  split
  · exact foldlM_hexDigits u before units
  · exact foldlM_escapeUnit u before units

theorem step_surrogate (u : CodeUnit) (half : (u.isHighSurrogate || u.isLowSurrogate) = true)
    (before : List Token) (units : Text) :
    Lexer.step ⟨before, .string units⟩ u = some ⟨before, .string (u :: units)⟩ := by
  have high : 0xD800 ≤ u.toNat := by
    simp only [CodeUnit.isHighSurrogate, CodeUnit.isLowSurrogate, Bool.or_eq_true, Bool.and_eq_true,
      decide_eq_true_eq, UInt16.le_iff_toNat_le] at half
    rcases half with ⟨high, -⟩ | ⟨low, -⟩
    · exact high
    · exact le_trans (by decide) low
  have apart (v : CodeUnit) (low : v.toNat < 0xD800) : u ≠ v := by
    rintro rfl
    omega
  have shown : ¬u < 32 := by
    rw [UInt16.lt_iff_toNat_lt]
    exact not_lt.mpr (le_trans (by decide) high)
  simp only [Lexer.step]
  rw [if_neg (apart quote (by decide)), if_neg (apart CodeUnit.backslash (by decide)), if_neg shown]

theorem foldlM_escape (text : Text) (before : List Token) (units : Text) :
    (escape text).foldlM Lexer.step ⟨before, .string units⟩ =
      some ⟨before, .string (text.reverse ++ units)⟩ := by
  induction text using escape.induct generalizing units with
  | case1 => rfl
  | case2 u => exact foldlM_escapeLone u before units
  | case3 u v rest pair ih =>
    obtain ⟨high, low⟩ := Bool.and_eq_true_iff.mp pair
    rw [escape, if_pos pair, List.foldlM_cons, step_surrogate u (by rw [high, Bool.true_or]),
      Option.bind_eq_bind, Option.bind_some, List.foldlM_cons,
      step_surrogate v (by rw [low, Bool.or_true]), Option.bind_eq_bind, Option.bind_some, ih]
    simp
  | case4 u v rest single ih =>
    rw [escape, if_neg single, List.foldlM_append, foldlM_escapeLone, Option.bind_eq_bind,
      Option.bind_some, ih]
    simp

def tokensFrom (before : List Token) (text : Text) : Option (List Token) :=
  (text.foldlM Lexer.step ⟨before, .between⟩).bind Lexer.finish

def Apart (text : Text) : Prop := ∀ u ∈ text.head?, Lexer.endsWord u = true

/-- A text is read as tokens wherever it stands, if no word in front of it or behind it goes on. -/
def Spells (text : Text) (tokens : List Token) : Prop :=
  ∀ before rest, Apart rest →
    tokensFrom before (text ++ rest) = tokensFrom (tokens.reverse ++ before) rest

theorem Spells.nil : Spells [] [] := fun _ _ _ => rfl

theorem Spells.append {text more : Text} {tokens others : List Token}
    (first : Spells text tokens) (second : Spells more others) (apart : Apart more) :
    Spells (text ++ more) (tokens ++ others) := by
  intro before rest behind
  have joined : Apart (more ++ rest) := by
    cases more with
    | nil => exact behind
    | cons u more => exact apart
  rw [List.append_assoc, first before _ joined, second _ rest behind, List.reverse_append,
    List.append_assoc]

theorem Spells.space {u : CodeUnit} {text : Text} {tokens : List Token} (space : isSpace u = true)
    (behind : Spells text tokens) : Spells (u :: text) tokens := by
  intro before rest apart
  rw [← behind before rest apart, List.cons_append, tokensFrom, List.foldlM_cons,
    Lexer.step_between, Lexer.start, if_pos space]
  rfl

theorem Spells.spaces {spaces text : Text} {tokens : List Token}
    (all : ∀ u ∈ spaces, isSpace u = true) (behind : Spells text tokens) :
    Spells (spaces ++ text) tokens := by
  induction spaces with
  | nil => exact behind
  | cons u spaces ih =>
    obtain ⟨first, rest⟩ := List.forall_mem_cons.mp all
    exact (ih rest).space first

theorem Spells.mark {u : CodeUnit} {token : Token} {text : Text} {tokens : List Token}
    (mark : ∀ before, Lexer.start before u = ⟨token :: before, .between⟩)
    (behind : Spells text tokens) : Spells (u :: text) (token :: tokens) := by
  intro before rest apart
  rw [List.reverse_cons, List.append_assoc, List.singleton_append, ← behind _ rest apart,
    List.cons_append, tokensFrom, List.foldlM_cons, Lexer.step_between, mark]
  rfl

theorem spells_quoted (text : Text) : Spells (quoted text) [.text text] := by
  intro before rest apart
  have opened : Lexer.step ⟨before, .between⟩ quote = some ⟨before, .string []⟩ := rfl
  have closed : Lexer.step ⟨before, .string text.reverse⟩ quote =
      some ⟨.text text :: before, .between⟩ := by
    simp only [Lexer.step, if_true, List.reverse_reverse]
  have shape : quoted text ++ rest = quote :: (escape text ++ quote :: rest) :=
    List.append_assoc _ _ _
  rw [shape, tokensFrom, List.foldlM_cons, opened, Option.bind_eq_bind, Option.bind_some,
    List.foldlM_append, foldlM_escape, List.append_nil, Option.bind_eq_bind, Option.bind_some,
    List.foldlM_cons, closed]
  rfl

theorem foldlM_word (word : Text) (inside : ∀ u ∈ word, Lexer.endsWord u = false)
    (before : List Token) (units : Text) :
    word.foldlM Lexer.step ⟨before, .word units⟩ = some ⟨before, .word (word.reverse ++ units)⟩ := by
  induction word generalizing units with
  | nil => rfl
  | cons u word ih =>
    obtain ⟨first, rest⟩ := List.forall_mem_cons.mp inside
    rw [List.foldlM_cons, Lexer.step_word, first, if_neg Bool.false_ne_true, Option.bind_eq_bind,
      Option.bind_some, ih rest]
    simp

theorem spells_word (word : Text) (token : Token) (legal : wordToken? word = some token)
    (present : word ≠ []) (inside : ∀ u ∈ word, Lexer.endsWord u = false) : Spells word [token] := by
  intro before rest apart
  obtain ⟨u, units, rfl⟩ := List.exists_cons_of_ne_nil present
  obtain ⟨first, others⟩ := List.forall_mem_cons.mp inside
  have begun : Lexer.start before u = ⟨before, .word [u]⟩ := by
    simp only [Lexer.endsWord, Bool.or_eq_false_iff, Option.isSome_eq_false_iff,
      Option.isNone_iff_eq_none, beq_eq_false_iff_ne] at first
    rw [Lexer.start, if_neg (by rw [first.1.1]; decide), if_neg first.1.2, first.2]
  have read : (u :: units).foldlM Lexer.step ⟨before, .between⟩ =
      some ⟨before, .word (u :: units).reverse⟩ := by
    rw [List.foldlM_cons, Lexer.step_between, begun, Option.bind_eq_bind, Option.bind_some,
      foldlM_word units others, List.reverse_cons]
  rw [tokensFrom, List.foldlM_append, read, Option.bind_eq_bind, Option.bind_some]
  -- The token is made only when the next unit has ended the word, or the text has ended.
  cases rest with
  | nil =>
    rw [List.foldlM_nil]
    exact (Lexer.finish_word _ _).trans (by rw [List.reverse_reverse, legal]; rfl)
  | cons v rest =>
    have ends : Lexer.endsWord v = true := apart v rfl
    rw [List.foldlM_cons, Lexer.step_word, if_pos ends, List.reverse_reverse, legal]
    rfl

theorem spells_name (word : Text) (token : Token) (legal : wordToken? word = some token)
    (inside : word.any Lexer.endsWord = false) : Spells word [token] := by
  refine spells_word word token legal ?_ ?_
  · rintro rfl
    cases legal
  · intro u member
    exact Bool.not_eq_true _ ▸ List.any_eq_false.mp inside u member

end Json

end AnsiMarkup
