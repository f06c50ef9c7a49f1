import Mathlib
import HclEditor.Document.Token

/-!
# The grammar of documents

The kinds of the tokens of a document form a context-free language. Its categories are the
least languages that satisfy the rules below. Behind a first token, what a category allows
is again made of categories, which is what a reader that goes from token to token needs.
-/

namespace HclEditor

open Computability

inductive Category where
  | body
  | item
  | value
  | list

namespace Grammar

def token (kind : TokenKind) : Language TokenKind := {[kind]}

def optional (language : Language TokenKind) : Language TokenKind := 1 + language

def comments : Language TokenKind := (token .comment)∗

def key : Language TokenKind := token .identifier + token (.literal .string)

def literal : Language TokenKind :=
  token (.literal .string) + token (.literal .number) + token (.literal .float) +
    token (.literal .bool) + token (.literal .heredoc)

/-- The rules: what each category consists of, in terms of the categories. -/
def rules (of : Category → Language TokenKind) : Category → Language TokenKind
  | .body => (comments * of .item * optional (token .comma))∗ * comments
  | .item => key * key∗ * (token .assign * comments * of .value +
      token .openBrace * of .body * token .closeBrace)
  | .value => literal + token .openBrace * of .body * token .closeBrace +
      token .openBracket * of .list * token .closeBracket
  | .list => comments + comments * of .value *
      (comments * token .comma * comments * of .value)∗ * comments *
        optional (token .comma * comments)

theorem rules_mono : Monotone rules := by
  intro first second hle category
  have hbody := hle .body
  have hitem := hle .item
  have hvalue := hle .value
  have hlist := hle .list
  cases category <;> simp only [rules] <;> gcongr

/-- The language of each category: the least that satisfies the rules. -/
def language : Category → Language TokenKind :=
  OrderHom.lfp ⟨rules, rules_mono⟩

theorem language_eq (category : Category) : language category = rules language category :=
  congrFun (OrderHom.map_lfp ⟨rules, rules_mono⟩).symm category

/-- What may follow an element of a list, up to the bracket that closes it. -/
def more : Language TokenKind :=
  (comments * token .comma * comments * language .value)∗ * comments *
    optional (token .comma * comments)

/-- What may follow the first key of an item. -/
def itemTail : Language TokenKind :=
  token .assign * comments * language .value + token .openBrace * language .body * token .closeBrace

section Unfold

variable (rest : Language TokenKind)

theorem kstar_mul (first : Language TokenKind) :
    first∗ * rest = rest + first * (first∗ * rest) := by
  conv_lhs => rw [← one_add_mul_kstar, add_mul, one_mul, mul_assoc]

theorem optional_mul (language : Language TokenKind) :
    optional language * rest = rest + language * rest := by
  rw [optional, add_mul, one_mul]

theorem body_mul : language .body * rest = comments *
    (rest + language .item * (optional (token .comma) * (language .body * rest))) := by
  have hbody : language .body * rest =
      (comments * language .item * optional (token .comma))∗ * (comments * rest) := by
    rw [language_eq, rules, mul_assoc]
  rw [mul_add, hbody]
  conv_lhs => rw [kstar_mul]
  simp only [mul_assoc]

theorem item_mul : language .item * rest = key * (key∗ * (itemTail * rest)) := by
  rw [language_eq, rules, itemTail]
  simp only [mul_assoc]

theorem itemTail_mul : itemTail * rest = token .assign * (comments * (language .value * rest)) +
    token .openBrace * (language .body * (token .closeBrace * rest)) := by
  simp only [itemTail, add_mul, mul_assoc]

theorem value_mul : language .value * rest = literal * rest +
    token .openBrace * (language .body * (token .closeBrace * rest)) +
      token .openBracket * (language .list * (token .closeBracket * rest)) := by
  rw [language_eq, rules]
  simp only [add_mul, mul_assoc]

theorem list_mul : language .list * rest = comments * (rest + language .value * (more * rest)) := by
  rw [language_eq, rules, more]
  simp only [add_mul, mul_add, mul_assoc]

theorem more_mul : more * rest = comments * (rest + token .comma * (language .list * rest)) := by
  have hmore : more = comments * optional (token .comma * comments) +
      comments * token .comma * comments * language .value * more := by
    conv_lhs => rw [more, mul_assoc, kstar_mul]
    simp only [more, mul_assoc]
  conv_lhs => rw [hmore]
  simp only [list_mul, optional, add_mul, mul_add, mul_one, mul_assoc, add_assoc]

end Unfold

section Head

variable {kind : TokenKind} {kinds : List TokenKind} {rest : Language TokenKind}

theorem cons_mem_token_mul {head : TokenKind} :
    kind :: kinds ∈ token head * rest ↔ kind = head ∧ kinds ∈ rest := by
  rw [Language.mem_mul]
  constructor
  · rintro ⟨first, hfirst, second, hsecond, heq⟩
    obtain rfl : first = [head] := hfirst
    obtain ⟨rfl, rfl⟩ := List.cons.inj heq
    exact ⟨rfl, hsecond⟩
  · rintro ⟨rfl, hkinds⟩
    exact ⟨[kind], rfl, kinds, hkinds, rfl⟩

theorem cons_mem_comments_mul : kind :: kinds ∈ comments * rest ↔
    kind = .comment ∧ kinds ∈ comments * rest ∨ kind :: kinds ∈ rest := by
  conv_lhs => rw [comments, kstar_mul, Language.mem_add, cons_mem_token_mul, or_comm]
  rfl

theorem cons_mem_optional_mul {head : TokenKind} : kind :: kinds ∈ optional (token head) * rest ↔
    kind = head ∧ kinds ∈ rest ∨ kind :: kinds ∈ rest := by
  rw [optional_mul, Language.mem_add, cons_mem_token_mul, or_comm]

theorem cons_mem_key_mul :
    kind :: kinds ∈ key * rest ↔ kind.keyKind?.isSome = true ∧ kinds ∈ rest := by
  rw [key, add_mul, Language.mem_add, cons_mem_token_mul, cons_mem_token_mul, ← or_and_right]
  apply and_congr_left'
  cases kind with
  | literal kind => cases kind <;> simp [TokenKind.keyKind?]
  | _ => simp [TokenKind.keyKind?]

theorem cons_mem_keys_mul : kind :: kinds ∈ key∗ * rest ↔
    kind.keyKind?.isSome = true ∧ kinds ∈ key∗ * rest ∨ kind :: kinds ∈ rest := by
  conv_lhs => rw [kstar_mul, Language.mem_add, cons_mem_key_mul, or_comm]

theorem cons_mem_literal_mul :
    kind :: kinds ∈ literal * rest ↔ (∃ scalar, kind = .literal scalar) ∧ kinds ∈ rest := by
  simp only [literal, add_mul, Language.mem_add, cons_mem_token_mul, ← or_and_right]
  apply and_congr_left'
  cases kind with
  | literal kind => cases kind <;> simp
  | _ => simp

theorem cons_mem_body_mul : kind :: kinds ∈ language .body * rest ↔
    kind = .comment ∧ kinds ∈ language .body * rest ∨ kind :: kinds ∈ rest ∨
      kind.keyKind?.isSome = true ∧
        kinds ∈ key∗ * (itemTail * (optional (token .comma) * (language .body * rest))) := by
  conv_lhs => rw [body_mul, cons_mem_comments_mul, ← body_mul, Language.mem_add, item_mul,
    cons_mem_key_mul]

theorem cons_mem_itemTail_mul : kind :: kinds ∈ itemTail * rest ↔
    kind = .assign ∧ kinds ∈ comments * (language .value * rest) ∨
      kind = .openBrace ∧ kinds ∈ language .body * (token .closeBrace * rest) := by
  rw [itemTail_mul, Language.mem_add, cons_mem_token_mul, cons_mem_token_mul]

theorem cons_mem_value_mul : kind :: kinds ∈ language .value * rest ↔
    (∃ scalar, kind = .literal scalar) ∧ kinds ∈ rest ∨
      kind = .openBrace ∧ kinds ∈ language .body * (token .closeBrace * rest) ∨
      kind = .openBracket ∧ kinds ∈ language .list * (token .closeBracket * rest) := by
  rw [value_mul, Language.mem_add, Language.mem_add, cons_mem_literal_mul, cons_mem_token_mul,
    cons_mem_token_mul, or_assoc]

theorem cons_mem_list_mul : kind :: kinds ∈ language .list * rest ↔
    kind = .comment ∧ kinds ∈ language .list * rest ∨ kind :: kinds ∈ rest ∨
      kind :: kinds ∈ language .value * (more * rest) := by
  conv_lhs => rw [list_mul, cons_mem_comments_mul, ← list_mul, Language.mem_add]

theorem cons_mem_more_mul : kind :: kinds ∈ more * rest ↔
    kind = .comment ∧ kinds ∈ more * rest ∨ kind :: kinds ∈ rest ∨
      kind = .comma ∧ kinds ∈ language .list * rest := by
  conv_lhs => rw [more_mul, cons_mem_comments_mul, ← more_mul, Language.mem_add,
    cons_mem_token_mul]

end Head

section Nil

variable {first second : Language TokenKind}

theorem nil_mem_mul : [] ∈ first * second ↔ [] ∈ first ∧ [] ∈ second := by
  simp [Language.mem_mul]

theorem exists_mem_mul :
    (∃ kinds, kinds ∈ first * second) ↔ (∃ kinds, kinds ∈ first) ∧ ∃ kinds, kinds ∈ second := by
  constructor
  · rintro ⟨kinds, hkinds⟩
    obtain ⟨before, hbefore, after, hafter, -⟩ := Language.mem_mul.mp hkinds
    exact ⟨⟨before, hbefore⟩, after, hafter⟩
  · rintro ⟨⟨before, hbefore⟩, after, hafter⟩
    exact ⟨before ++ after, Language.append_mem_mul hbefore hafter⟩

theorem nil_notMem_token (head : TokenKind) : [] ∉ token head :=
  List.cons_ne_nil head [] ∘ Eq.symm

theorem nil_mem_optional : [] ∈ optional first :=
  .inl rfl

theorem nil_mem_body : [] ∈ language .body := by
  rw [language_eq, rules, nil_mem_mul]
  exact ⟨Language.nil_mem_kstar _, Language.nil_mem_kstar _⟩

theorem nil_mem_list : [] ∈ language .list := by
  rw [language_eq, rules]
  exact .inl (Language.nil_mem_kstar _)

theorem nil_mem_more : [] ∈ more := by
  rw [more, nil_mem_mul, nil_mem_mul]
  exact ⟨⟨Language.nil_mem_kstar _, Language.nil_mem_kstar _⟩, nil_mem_optional⟩

theorem nil_notMem_value : [] ∉ language .value := by
  rw [language_eq, rules]
  simp only [literal, Language.mem_add, nil_mem_mul, nil_notMem_token, false_and, and_false,
    or_self, not_false_eq_true]

theorem nil_notMem_itemTail : [] ∉ itemTail := by
  simp only [itemTail, Language.mem_add, nil_mem_mul, nil_notMem_token, false_and, and_false,
    or_self, not_false_eq_true]

theorem exists_mem_value : ∃ kinds, kinds ∈ language .value := by
  refine ⟨[.literal .bool], ?_⟩
  have hliteral : [.literal .bool] ∈ language .value * 1 :=
    cons_mem_value_mul.mpr (.inl ⟨⟨.bool, rfl⟩, rfl⟩)
  rwa [mul_one] at hliteral

theorem exists_mem_itemTail : ∃ kinds, kinds ∈ itemTail := by
  obtain ⟨kinds, hkinds⟩ := exists_mem_value
  refine ⟨[.assign] ++ [] ++ kinds, .inl ?_⟩
  exact Language.append_mem_mul (Language.append_mem_mul rfl (Language.nil_mem_kstar _)) hkinds

end Nil

end Grammar

end HclEditor
