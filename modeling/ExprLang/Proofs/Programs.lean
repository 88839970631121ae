/-
Programs are read as the grammar derives them. `Program.read` gives a program
just when the tokens before the end of the input derive it
(`Program.read_eq_ok`), and an error just at a token that cannot follow the
beginning of a statement (`Program.read_eq_error`, `Program.Refused.read_eq`).
-/
import ExprLang.Proofs.Statements

namespace ExprLang

/-- The tokens before the first that ends the input. -/
def beforeEnd (ts : List Token) : List Token := ts.takeWhile (·.kind ≠ .endOfInput)

theorem beforeEnd_append {ts rest : List Token} (h : ∀ t ∈ ts, t.kind ≠ .endOfInput) (hrest : Program.AtEnd rest) :
    beforeEnd (ts ++ rest) = ts := by
  rw [beforeEnd, List.takeWhile_append_of_pos (by simpa using h)]
  cases rest with
  | nil => simp
  | cons t rest => simp [hrest t rfl]

theorem exists_atEnd (ts : List Token) : ∃ rest, ts = beforeEnd ts ++ rest ∧ Program.AtEnd rest := by
  refine ⟨ts.dropWhile (·.kind ≠ .endOfInput), List.takeWhile_append_dropWhile.symm, fun t ht => ?_⟩
  have h := List.head?_dropWhile_not (·.kind ≠ .endOfInput) ts
  rw [Option.mem_def.1 ht] at h
  simpa using h

/-! ## The tokens of statements -/

theorem DerivesStatement.not_end {ts s} (h : DerivesStatement ts s) : ∀ t ∈ ts, t.kind ≠ .endOfInput := by
  intro t ht
  cases h with
  | print hw he hs =>
    simp only [List.mem_cons, List.mem_append, List.not_mem_nil, or_false] at ht
    rcases ht with rfl | ht | rfl
    · rw [hw]; decide
    · exact (Kind.of_not_delimits (he.not_delimits t ht)).1
    · rw [hs]; decide
  | expression he hs =>
    rw [← List.cons_append, List.mem_append, List.mem_singleton] at ht
    rcases ht with ht | rfl
    · exact (Kind.of_not_delimits (he.not_delimits t ht)).1
    · rw [hs]; decide

theorem DerivesStatement.ne_nil {ts s} (h : DerivesStatement ts s) : ts ≠ [] := by
  cases h <;> exact List.cons_ne_nil _ _

theorem BeginsStatement.not_end {ts w} (h : BeginsStatement ts w) : ∀ t ∈ ts, t.kind ≠ .endOfInput := by
  obtain ⟨us, s, hs⟩ := h.complete
  exact fun t ht => hs.not_end t (List.mem_append_left us ht)

theorem DerivesProgram.not_end {ts p} (h : DerivesProgram ts p) : ∀ t ∈ ts, t.kind ≠ .endOfInput := by
  induction h with
  | nil => simp
  | cons hs _ ih => exact fun t ht => (List.mem_append.1 ht).elim (hs.not_end t) (ih t)

namespace Program

/-! ## What is read -/

/-- The statements of a program are read one after the other, and what follows them after that. -/
theorem read_of_derives {us p} (h : DerivesProgram us p) (rest : List Token) :
    read (us ++ rest) = (read rest).map (p ++ ·) := by
  induction h with
  | nil =>
    simp only [List.nil_append]
    cases read rest <;> rfl
  | @cons ts s us p hs _ ih =>
    have hr := Statement.read_of_derives hs (us ++ rest)
    obtain ⟨t, ts, rfl⟩ := List.exists_cons_of_ne_nil hs.ne_nil
    rw [List.append_assoc]
    refine (read_taken (hs.not_end t List.mem_cons_self) hr).trans ?_
    rw [ih]
    cases read rest <;> rfl

/-- Why a list of tokens is refused: after whole statements and the beginning `us` of
another, which has begun, stands a token that cannot follow. -/
structure Refused (done us : List Token) (w : Wanted) (rest : List Token) : Prop where
  done : ∃ p, DerivesProgram done p
  begins : BeginsStatement us w
  blocks : w.Blocks rest
  begun : ¬ AtEnd (us ++ rest)

/-- What reading a program does, when it is done as the grammar says. -/
def Meets (ts : List Token) : Except SyntaxError Program → Prop
  | .ok p => ∃ us rest, ts = us ++ rest ∧ DerivesProgram us p ∧ AtEnd rest
  | .error error => ∃ done us w rest, ts = done ++ (us ++ rest) ∧ Refused done us w rest ∧
      error = SyntaxError.located w.expected rest.head?

theorem read_meets (ts : List Token) : Meets ts (read ts) := by
  induction ts using read.induct with
  | case1 =>
    rw [read]
    exact ⟨[], [], rfl, .nil, by simp [AtEnd]⟩
  | case2 t ts ht =>
    have hend : AtEnd (t :: ts) := by simpa [AtEnd] using ht
    rw [read_atEnd hend]
    exact ⟨[], t :: ts, rfl, .nil, hend⟩
  | case3 t ts ht error rest hr =>
    have ho : (Statement.read (t :: ts)).outcome = (.error error, rest) := by rw [hr]; rfl
    have h := Statement.read_meets (t :: ts)
    rw [ho] at h
    obtain ⟨us, w, hts, hb, hblocks, herr⟩ := h
    rw [read_refused ht ho]
    refine ⟨[], us, w, rest, hts, ⟨⟨[], .nil⟩, hb, hblocks, fun hend => ?_⟩, herr⟩
    exact ht (hend t (by rw [← hts]; rfl))
  | case4 t ts ht s rest shorter hr p hp ih =>
    have ho : (Statement.read (t :: ts)).outcome = (.ok s, rest) := by rw [hr]; rfl
    have h := Statement.read_meets (t :: ts)
    rw [ho] at h
    obtain ⟨us, hts, hs⟩ := h
    rw [hp] at ih
    rw [read_taken ht ho, hp]
    obtain ⟨vs, end', rfl, hvs, hend⟩ := ih
    exact ⟨us ++ vs, end', by rw [List.append_assoc]; exact hts, .cons hs hvs, hend⟩
  | case5 t ts ht s rest shorter hr error hp ih =>
    have ho : (Statement.read (t :: ts)).outcome = (.ok s, rest) := by rw [hr]; rfl
    have h := Statement.read_meets (t :: ts)
    rw [ho] at h
    obtain ⟨us, hts, hs⟩ := h
    rw [hp] at ih
    rw [read_taken ht ho, hp]
    obtain ⟨done, vs, w, rest', rfl, ⟨⟨p, hdone⟩, hb, hblocks, hbegun⟩, herr⟩ := ih
    exact ⟨us ++ done, vs, w, rest', by rw [List.append_assoc]; exact hts,
      ⟨⟨s :: p, .cons hs hdone⟩, hb, hblocks, hbegun⟩, herr⟩

/-- A list of tokens is refused at a token that cannot follow the beginning of a statement. -/
theorem Refused.read_eq {done us w rest} (h : Refused done us w rest) :
    read (done ++ (us ++ rest)) = .error (SyntaxError.located w.expected rest.head?) := by
  obtain ⟨p, hp⟩ := h.done
  have hr := Statement.read_of_begins h.begins h.blocks
  rw [read_of_derives hp]
  cases hus : us ++ rest with
  | nil => exact absurd (by simp [hus, AtEnd]) h.begun
  | cons t ts =>
    have ht : t.kind ≠ .endOfInput := fun ht => h.begun (by simpa [hus, AtEnd] using ht)
    rw [hus] at hr
    rw [read_refused ht hr]
    rfl

theorem read_eq_ok {ts : List Token} {p : Program} : read ts = .ok p ↔ DerivesProgram (beforeEnd ts) p := by
  constructor
  · intro h
    have hm := read_meets ts
    rw [h] at hm
    obtain ⟨us, rest, rfl, hus, hend⟩ := hm
    rwa [beforeEnd_append hus.not_end hend]
  · intro h
    obtain ⟨rest, hts, hend⟩ := exists_atEnd ts
    rw [hts, read_of_derives h, read_atEnd hend]
    simp [Except.map]

theorem read_eq_ok_of_derives {us p} (h : DerivesProgram us p) : read us = .ok p := by
  have hend : AtEnd [] := by simp [AtEnd]
  have hus : beforeEnd us = us := by simpa using beforeEnd_append h.not_end hend
  exact read_eq_ok.2 (by rwa [hus])

theorem read_eq_error {ts : List Token} {error : SyntaxError} (h : read ts = .error error) :
    ∃ done us w rest, ts = done ++ (us ++ rest) ∧ Refused done us w rest ∧
      error = SyntaxError.located w.expected rest.head? := by
  have hm := read_meets ts
  rwa [h] at hm

/-- What stands after the token that cannot follow makes no difference. -/
theorem Refused.congr {done us w rest rest'} (h : Refused done us w rest) (he : rest'.head? = rest.head?) :
    Refused done us w rest' := by
  refine ⟨h.done, h.begins, h.blocks.congr he, fun hend => h.begun ?_⟩
  have hhead : (us ++ rest').head? = (us ++ rest).head? := by rw [List.head?_append, List.head?_append, he]
  rwa [AtEnd, hhead] at hend

theorem Refused.not_end {done us w rest} (h : Refused done us w rest) : ∀ t ∈ done ++ us, t.kind ≠ .endOfInput := by
  obtain ⟨p, hp⟩ := h.done
  exact fun t ht => (List.mem_append.1 ht).elim (hp.not_end t) (h.begins.not_end t)

/-- Where the input has an end, an error stands at a token. -/
theorem read_eq_error_at {ts : List Token} (hend : ∃ t ∈ ts, t.kind = .endOfInput) {error : SyntaxError}
    (h : read ts = .error error) : ∃ done us w t rest, ts = done ++ (us ++ t :: rest) ∧
      Refused done us w (t :: rest) ∧ error = SyntaxError.located w.expected (some t) := by
  obtain ⟨done, us, w, rest, rfl, hrefused, rfl⟩ := read_eq_error h
  cases rest with
  | nil =>
    obtain ⟨t, ht, hk⟩ := hend
    exact absurd hk (hrefused.not_end t (by simpa using ht))
  | cons t rest => exact ⟨done, us, w, t, rest, rfl, hrefused, rfl⟩

/-! ## What stands after the end of the input -/

theorem beforeEnd_append_end (ts : List Token) {e : Token} (he : e.kind = .endOfInput) (us : List Token) :
    beforeEnd (ts ++ e :: us) = beforeEnd ts := by
  induction ts with
  | nil => simp [beforeEnd, he]
  | cons t ts ih =>
    simp only [beforeEnd, List.cons_append, List.takeWhile_cons] at ih ⊢
    rw [ih]

/-- An error stands before the end of the input, or at it. -/
theorem Refused.split_end {done us w rest ts e vs} (h : Refused done us w rest) (he : e.kind = .endOfInput)
    (hts : done ++ (us ++ rest) = ts ++ e :: vs) : ∃ ts', ts = done ++ us ++ ts' ∧ rest = ts' ++ e :: vs := by
  rw [← List.append_assoc] at hts
  rcases List.append_eq_append_iff.1 hts with h' | ⟨ts', hdone, hrest⟩
  · exact h'
  · cases ts' with
    | nil => exact ⟨[], by simpa using hdone.symm, by simpa using hrest.symm⟩
    | cons t ts' =>
      obtain ⟨rfl, -⟩ := List.cons.inj hrest
      exact absurd he (h.not_end e (by rw [hdone]; simp))

theorem read_after_end (ts : List Token) {e : Token} (he : e.kind = .endOfInput) (us vs : List Token) :
    read (ts ++ e :: us) = read (ts ++ e :: vs) := by
  cases hr : read (ts ++ e :: us) with
  | ok p =>
    rw [read_eq_ok, beforeEnd_append_end ts he] at hr
    exact (read_eq_ok.2 (by rwa [beforeEnd_append_end ts he])).symm
  | error error =>
    obtain ⟨done, cur, w, rest, hts, hrefused, herr⟩ := read_eq_error hr
    obtain ⟨ts', rfl, rfl⟩ := hrefused.split_end he hts.symm
    have hhead : (ts' ++ e :: vs).head? = (ts' ++ e :: us).head? := by simp only [List.head?_append, List.head?_cons]
    have hr' := (hrefused.congr hhead).read_eq
    rw [herr, List.append_assoc, List.append_assoc, hr', hhead]

/-- **Reading is the grammar.** A list of tokens is read as a program just when the tokens
before the first that ends the input derive that program; they derive at most one; and
what stands after the end of the input makes no difference. -/
theorem read_iff_derives (ts : List Token) (p : Program) :
    (read ts = .ok p ↔ DerivesProgram (beforeEnd ts) p) ∧
      (∀ us p q, DerivesProgram us p → DerivesProgram us q → p = q) ∧
      ∀ e us vs, e.kind = .endOfInput → read (ts ++ e :: us) = read (ts ++ e :: vs) := by
  refine ⟨read_eq_ok, fun us p q hp hq => ?_, fun e us vs he => read_after_end ts he us vs⟩
  exact Except.ok.inj ((read_eq_ok_of_derives hp).symm.trans (read_eq_ok_of_derives hq))

end Program
end ExprLang
