import JobScheduler.Text.Quoted

/-!
Strings in double quotes. What is read of a text is a string that is written by the rules
(`quoted_of_read`), each such string is read (`Quoted.read`), and each text can be written as one
(`quoted_quote`).
-/

namespace JobScheduler.Text

/-- Whether characters, the last of which is the closing quote, are a string with a content. -/
inductive Quoted : List Char → List Char → Prop where
  | close : Quoted [] ['"']
  | plain {c : Char} {content body : List Char} : isPlain c = true → c ≠ '"' → c ≠ '\\' →
      Quoted content body → Quoted (c :: content) (c :: body)
  | escape {x c : Char} {content body : List Char} : escaped? x = some c →
      Quoted content body → Quoted (c :: content) ('\\' :: x :: body)
  | short {digits content body : List Char} {c : Char} : digits.length = 4 →
      codePoint? digits = some c → Quoted content body →
      Quoted (c :: content) ('\\' :: 'u' :: (digits ++ body))
  | long {digits content body : List Char} {c : Char} : digits.length = 8 →
      codePoint? digits = some c → Quoted content body →
      Quoted (c :: content) ('\\' :: 'U' :: (digits ++ body))

theorem consRead_eq_some_iff {c : Char} {read : Option (List Char × List Char)}
    {content rest : List Char} :
    consRead c read = some (content, rest) ↔
      ∃ tail, read = some (tail, rest) ∧ content = c :: tail := by
  simp only [consRead, Option.map_eq_some_iff, Prod.exists, Prod.mk.injEq]
  constructor
  · rintro ⟨tail, rest, hread, rfl, rfl⟩
    exact ⟨tail, hread, rfl⟩
  · rintro ⟨tail, hread, rfl⟩
    exact ⟨tail, rest, hread, rfl, rfl⟩

theorem Quoted.read {content body : List Char} (h : Quoted content body) (rest : List Char) :
    quoted? (body ++ rest) = some (content, rest) := by
  induction h with
  | close => rw [List.singleton_append, quoted?]
  | plain hplain hquote hslash _ ih =>
      rw [List.cons_append, quoted?, if_pos (by simp [hplain, hslash]), ih]
      · rfl
      · exact hquote
      all_goals intros; exact hslash ‹_›
  | @escape x c _ _ hx _ ih =>
      have hshort : x ≠ 'u' := by rintro rfl; exact absurd hx nofun
      have hlong : x ≠ 'U' := by rintro rfl; exact absurd hx nofun
      rw [List.cons_append, List.cons_append, quoted?, hx, Option.bind_some, ih]
      · rfl
      · intros; exact hshort ‹_›
      · intros; exact hlong ‹_›
  | @short digits _ _ _ hlen hcode _ ih =>
      match digits, hlen with
      | [a, b, c, d], _ =>
        simp only [List.cons_append, List.nil_append]
        rw [quoted?, hcode, Option.bind_some, ih]
        rfl
  | @long digits _ _ _ hlen hcode _ ih =>
      match digits, hlen with
      | [a, b, c, d, e, f, g, h], _ =>
        simp only [List.cons_append, List.nil_append]
        rw [quoted?, hcode, Option.bind_some, ih]
        rfl

theorem quoted_of_read {cs content rest : List Char} (h : quoted? cs = some (content, rest)) :
    ∃ body, cs = body ++ rest ∧ Quoted content body := by
  fun_induction quoted? cs generalizing content with
  | case1 => exact absurd h nofun
  | case2 =>
      obtain ⟨rfl, rfl⟩ := Prod.mk.inj (Option.some_inj.mp h)
      exact ⟨['"'], rfl, .close⟩
  | case3 a b c d _ ih =>
      obtain ⟨x, hcode, h⟩ := Option.bind_eq_some_iff.mp h
      obtain ⟨tail, hread, rfl⟩ := consRead_eq_some_iff.mp h
      obtain ⟨body, rfl, hbody⟩ := ih hread
      exact ⟨'\\' :: 'u' :: ([a, b, c, d] ++ body), rfl, .short rfl hcode hbody⟩
  | case4 a b c d e f g h' _ ih =>
      obtain ⟨x, hcode, h⟩ := Option.bind_eq_some_iff.mp h
      obtain ⟨tail, hread, rfl⟩ := consRead_eq_some_iff.mp h
      obtain ⟨body, rfl, hbody⟩ := ih hread
      exact ⟨'\\' :: 'U' :: ([a, b, c, d, e, f, g, h'] ++ body), rfl, .long rfl hcode hbody⟩
  | case5 x _ _ _ ih =>
      obtain ⟨c, hx, h⟩ := Option.bind_eq_some_iff.mp h
      obtain ⟨tail, hread, rfl⟩ := consRead_eq_some_iff.mp h
      obtain ⟨body, rfl, hbody⟩ := ih hread
      exact ⟨'\\' :: x :: body, rfl, .escape hx hbody⟩
  | case6 c _ hquote _ _ _ hc ih =>
      obtain ⟨hplain, hslash⟩ := Bool.and_eq_true_iff.mp hc
      obtain ⟨tail, hread, rfl⟩ := consRead_eq_some_iff.mp h
      obtain ⟨body, rfl, hbody⟩ := ih hread
      exact ⟨c :: body, rfl, .plain hplain hquote (bne_iff_ne.mp hslash) hbody⟩
  | case7 => exact absurd h nofun

theorem Quoted.length_lt {content body : List Char} (h : Quoted content body) :
    content.length < body.length := by
  induction h with
  | close => exact Nat.one_pos
  | plain _ _ _ _ ih => exact Nat.succ_lt_succ ih
  | escape _ _ ih =>
      simp only [List.length_cons]
      omega
  | short _ _ _ ih | long _ _ _ ih =>
      simp only [List.length_cons, List.length_append]
      omega

/-- The digit with a value below 16. -/
def hexDigit (n : Nat) : Char := "0123456789abcdef".toList.getD n '0'

/-- The last hexadecimal digits of a number, as many as `width`. -/
def hexDigits : Nat → Nat → List Char
  | 0, _ => []
  | width + 1, n => hexDigits width (n / 16) ++ [hexDigit (n % 16)]

/-- A character as it stands in a string in double quotes. -/
def quoteChar (c : Char) : List Char :=
  if isPlain c && c != '"' && c != '\\' then [c] else '\\' :: 'U' :: hexDigits 8 c.toNat

/-- A text as it stands between double quotes. -/
def quote (cs : List Char) : List Char := cs.flatMap quoteChar

theorem digit?_hexDigit (n : Nat) (h : n < 16) : digit? 16 (hexDigit n) = some n := by
  have hall : ∀ n < 16, digit? 16 (hexDigit n) = some n := by decide
  exact hall n h

theorem natFrom_append (base n : Nat) (cs cs' : List Char) :
    natFrom base n (cs ++ cs') = (natFrom base n cs).bind fun m => natFrom base m cs' := by
  induction cs generalizing n with
  | nil => rfl
  | cons c rest ih =>
      rw [List.cons_append, natFrom, natFrom]
      cases digit? base c with
      | none => rfl
      | some d => exact ih _

theorem length_hexDigits (width n : Nat) : (hexDigits width n).length = width := by
  induction width generalizing n with
  | zero => rfl
  | succ width ih => rw [hexDigits, List.length_append, ih, List.length_singleton]

theorem natFrom_hexDigits (width n : Nat) (h : n < Nat.pow 16 width) :
    natFrom 16 0 (hexDigits width n) = some n := by
  induction width generalizing n with
  | zero =>
      obtain rfl := Nat.lt_one_iff.mp h
      rfl
  | succ width ih =>
      have hrest : n / 16 < Nat.pow 16 width := by
        apply Nat.div_lt_of_lt_mul
        rw [Nat.mul_comm]
        exact h
      have hlast := digit?_hexDigit (n % 16) (Nat.mod_lt n (Nat.succ_pos 15))
      rw [hexDigits, natFrom_append, ih _ hrest, Option.bind_some, natFrom, hlast]
      exact congrArg some (Nat.div_add_mod' n 16)

theorem codePoint?_hexDigits (c : Char) : codePoint? (hexDigits 8 c.toNat) = some c := by
  have hlarge : c.toNat < Nat.pow 16 8 := c.val.toNat_lt
  have hsome : hexDigits 8 c.toNat ≠ [] := by
    intro h
    exact absurd (congrArg List.length h) (by rw [length_hexDigits]; decide)
  have hnat : nat? 16 (hexDigits 8 c.toNat) = some c.toNat := by
    rw [nat?, if_neg (by simpa using hsome), natFrom_hexDigits 8 _ hlarge]
  have hvalid : c.toNat.isValidChar := c.valid
  rw [codePoint?, hnat, Option.bind_some, char?, dif_pos hvalid]
  exact congrArg some (Char.ext rfl)

theorem quoted_quote (cs : List Char) : Quoted cs (quote cs ++ ['"']) := by
  induction cs with
  | nil => exact .close
  | cons c rest ih =>
      rw [quote, List.flatMap_cons, List.append_assoc, quoteChar]
      split
      · rename_i hc
        simp only [Bool.and_eq_true, bne_iff_ne] at hc
        exact .plain hc.1.1 hc.1.2 hc.2 ih
      · exact .long (length_hexDigits 8 _) (codePoint?_hexDigits c) ih

end JobScheduler.Text
