/-
A list of tokens is refused at the earliest token that it can be refused at. The
tokens before that one can be completed to a program (`Program.Refused.complete`),
and with it they cannot, whatever follows; and what the error says was expected can
be told from the tokens before it (`Program.Refused.message`).
-/
import Mathlib.Data.List.DropRight
import ExprLang.Proofs.Programs

namespace ExprLang

/-- The tokens of the statement that a list of tokens leaves unfinished. -/
def currentStatement (ts : List Token) : List Token := ts.rtakeWhile (·.kind ≠ .semicolon)

/-- The message about a token that is missed after an operand, by the tokens of the statement up to there. -/
def missingMessage (statement : List Token) : String :=
  if countKind .rightParen statement < countKind .leftParen statement then "Expect ')' after expression."
  else if statement.head?.any (·.kind = .printWord) then "Expect ';' after value."
  else "Expect ';' after expression."

/-- What a syntax error says of the list of tokens, when it is reported at token `k`. -/
structure ReportedAt (ts : List Token) (error : SyntaxError) (k : Nat) : Prop where
  k_le : k ≤ ts.length
  /-- The tokens before token `k` are the beginning of a program. -/
  completable : ∃ us p, Program.read (ts.take k ++ us) = .ok p
  /-- With token `k` they are the beginning of none, and the error is the same whatever follows. -/
  refused : k < ts.length → ∀ us, Program.read (ts.take (k + 1) ++ us) = .error error
  /-- The text of token `k`; none if it ends the input or there is no such token. -/
  found : error.found = ts[k]?.bind fun t => if t.kind = .endOfInput then none else some t.lexeme
  line : error.line = (ts[k]?.map (·.line)).getD 0
  /-- A certain token is missed just where token `k - 1` ends an operand. -/
  token_iff : (∃ message, error.expected = .token message) ↔
    0 < k ∧ ∃ t, ts[k - 1]? = some t ∧ t.kind.endsOperand = true
  message : ∀ message, error.expected = .token message → message = missingMessage (currentStatement (ts.take k))
  not_opening : error.expected ≠ .token "Expect '('."

namespace SyntaxError

theorem located_expected (x : Expected) (t : Option Token) : (located x t).expected = x := by
  cases t <;> rfl

theorem located_found (x : Expected) (t : Option Token) :
    (located x t).found = t.bind fun t => if t.kind = .endOfInput then none else some t.lexeme := by
  cases t <;> rfl

theorem located_line (x : Expected) (t : Option Token) : (located x t).line = (t.map (·.line)).getD 0 := by
  cases t <;> rfl

end SyntaxError

/-! ## The tokens before the error -/

theorem DerivesStatement.ends {ts s} (h : DerivesStatement ts s) :
    ∃ us semicolon, ts = us ++ [semicolon] ∧ semicolon.kind = .semicolon := by
  cases h with
  | print _ _ hs => exact ⟨_ :: _, _, rfl, hs⟩
  | expression _ hs => exact ⟨_ :: _, _, rfl, hs⟩

theorem DerivesProgram.ends {ts p} (h : DerivesProgram ts p) :
    ts = [] ∨ ∃ us semicolon, ts = us ++ [semicolon] ∧ semicolon.kind = .semicolon := by
  induction h with
  | nil => exact .inl rfl
  | @cons ts s us p hs _ ih =>
    right
    rcases ih with rfl | ⟨vs, semicolon, rfl, hk⟩
    · simpa using hs.ends
    · exact ⟨ts ++ vs, semicolon, by rw [List.append_assoc], hk⟩

theorem endsInOperand_append {done p} (h : DerivesProgram done p) (us : List Token) :
    endsInOperand (done ++ us) = endsInOperand us := by
  rcases h.ends with rfl | ⟨vs, semicolon, rfl, hk⟩
  · rfl
  · rw [List.append_assoc]
    exact endsInOperand_append_cons vs us (by rw [hk]; rfl)

theorem currentStatement_append {done p} (h : DerivesProgram done p) {us : List Token}
    (hus : ∀ t ∈ us, t.kind ≠ .semicolon) : currentStatement (done ++ us) = us := by
  rcases h.ends with rfl | ⟨vs, semicolon, rfl, hk⟩
  · exact List.rtakeWhile_eq_self_iff.2 (by simpa using hus)
  · have hrev : ∀ t ∈ us.reverse, decide (t.kind ≠ .semicolon) = true := by simpa using hus
    rw [currentStatement, List.rtakeWhile, List.reverse_append, List.takeWhile_append_of_pos hrev]
    simp [hk]

/-- The message of a beginning of a statement can be told from its tokens. -/
theorem BeginsStatement.message {ts w message} (h : BeginsStatement ts w) (hw : w.expected = .token message) :
    message = missingMessage ts := by
  have hclosing : ∀ {ts w}, Begins .expression ts w → w.expected = .token message →
      countKind .rightParen ts < countKind .leftParen ts ∧ message = "Expect ')' after expression." := by
    intro ts w hb hw
    rcases hb.wanted with rfl | rfl
    · cases hw
    · cases hw
      exact ⟨hb.parens.2 rfl, rfl⟩
  cases h with
  | start => cases hw
  | print hk hb =>
    obtain ⟨hlt, rfl⟩ := hclosing hb hw
    simp [missingMessage, hk, hlt]
  | printed hk he =>
    cases hw
    simp [missingMessage, hk, he.parens]
  | expression hb =>
    obtain ⟨hlt, rfl⟩ := hclosing hb hw
    rw [missingMessage, if_pos hlt]
  | expressed he =>
    cases hw
    obtain ⟨t, us, rfl, -⟩ := he.head
    simp [missingMessage, he.parens, he.ne_print]

theorem Wanted.expected_token_iff (w : Wanted) :
    (∃ message, w.expected = .token message) ↔ w.afterOperand = true := by
  rcases w with _ | _ | _ | _ | _ <;> simp [Wanted.expected, Wanted.afterOperand]

theorem endsInOperand_iff {ts : List Token} :
    endsInOperand ts = true ↔ 0 < ts.length ∧ ∃ t, ts[ts.length - 1]? = some t ∧ t.kind.endsOperand = true := by
  rw [endsInOperand, List.getLast?_eq_getElem?, Option.any_eq_true]
  constructor
  · intro h
    obtain ⟨t, ht, he⟩ := h
    have := (List.getElem?_eq_some_iff.1 ht).1
    exact ⟨by omega, t, ht, he⟩
  · intro h
    exact h.2

namespace Program

variable {done us : List Token} {w : Wanted} {rest : List Token}

/-- The tokens before an error can be completed to a program. -/
theorem Refused.complete (h : Refused done us w rest) : ∃ vs p, read (done ++ us ++ vs) = .ok p := by
  obtain ⟨p, hp⟩ := h.done
  obtain ⟨vs, s, hs⟩ := h.begins.complete
  refine ⟨vs, p ++ [s], ?_⟩
  have hlast := read_eq_ok_of_derives (.cons hs .nil)
  rw [List.append_nil] at hlast
  rw [List.append_assoc, read_of_derives hp, hlast]
  rfl

/-- A certain token is missed where an operand has just ended. -/
theorem Refused.expected_token_iff (h : Refused done us w rest) :
    (∃ message, w.expected = .token message) ↔ endsInOperand (done ++ us) = true := by
  obtain ⟨p, hp⟩ := h.done
  rw [w.expected_token_iff, h.begins.afterOperand, endsInOperand_append hp]

theorem Refused.message (h : Refused done us w rest) {message} (hw : w.expected = .token message) :
    message = missingMessage (currentStatement (done ++ us)) := by
  obtain ⟨p, hp⟩ := h.done
  rw [currentStatement_append hp h.begins.not_semicolon]
  exact h.begins.message hw

/-- **A syntax error is reported at the earliest token**: there is a token that the error is
reported at, up to which the list is the beginning of a program and with which it is none. -/
theorem read_error_reportedAt {ts : List Token} {error : SyntaxError} (h : read ts = .error error) :
    ∃ k, ReportedAt ts error k := by
  obtain ⟨done, us, w, rest, rfl, hrefused, rfl⟩ := read_eq_error h
  rw [← List.append_assoc]
  generalize hbefore : done ++ us = before at *
  have htake : (before ++ rest).take before.length = before := List.take_left
  have hget : (before ++ rest)[before.length]? = rest.head? := by
    rw [List.getElem?_append_right (Nat.le_refl _), Nat.sub_self, List.head?_eq_getElem?]
  refine ⟨before.length, by simp, ?_, fun hlt vs => ?_, ?_, ?_, ?_, ?_, ?_⟩
  · rw [htake, ← hbefore]
    exact hrefused.complete
  · cases rest with
    | nil => simp at hlt
    | cons t rest =>
      have hnext : Refused done us w (t :: vs) := hrefused.congr rfl
      have hr := hnext.read_eq
      rw [← List.append_assoc, hbefore] at hr
      rw [List.take_length_add_append, List.append_assoc]
      exact hr
  · rw [hget, SyntaxError.located_found]
  · rw [hget, SyntaxError.located_line]
  · have hlast : 0 < before.length → (before ++ rest)[before.length - 1]? = before[before.length - 1]? :=
      fun hpos => List.getElem?_append_left (by omega)
    rw [SyntaxError.located_expected, hrefused.expected_token_iff, hbefore, endsInOperand_iff]
    exact and_congr_right fun hpos => by rw [hlast hpos]
  · intro message hw
    rw [htake, ← hbefore]
    exact hrefused.message (by rwa [SyntaxError.located_expected] at hw)
  · rw [SyntaxError.located_expected]
    rcases w with _ | _ | _ | _ | _ <;> decide

/-- The second statement of `true; print (nil;` misses its closing parenthesis. -/
def unclosed : List Token :=
  [⟨.trueWord, "true", none, 1⟩, ⟨.semicolon, ";", none, 1⟩, ⟨.printWord, "print", none, 1⟩,
    ⟨.leftParen, "(", none, 1⟩, ⟨.nilWord, "nil", none, 1⟩, ⟨.semicolon, ";", none, 1⟩]

theorem read_unclosed_reportedAt :
    read unclosed = .error ⟨.token "Expect ')' after expression.", some ";", 1⟩ ∧
      ∃ k, ReportedAt unclosed ⟨.token "Expect ')' after expression.", some ";", 1⟩ k :=
  ⟨by decide +kernel, read_error_reportedAt (by decide +kernel)⟩

end Program
end ExprLang
