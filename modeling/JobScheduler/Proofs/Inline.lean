import JobScheduler.Proofs.Quoting
import JobScheduler.Value.Inline
import Mathlib.Data.List.TakeWhile
import Mathlib.Tactic.MkIffOfInductiveProp

/-!
The values that lines are read as, by a grammar: `Inline.Written` tells which values are written in
which way. A line is read as what is written in it, and as a text as it stands if that is nothing
(`Inline.read_eq_iff`). So the lines that are read as they stand are those in which nothing is
written, and the words that mean nothing else (`Inline.read_eq_text_iff`).
-/

namespace JobScheduler

open Text

namespace Inline

/-- Whether characters are blanks of ASCII. -/
def Blanks (cs : List Char) : Prop := ∀ c ∈ cs, isAsciiBlank c = true

/-- Whether characters are a word: they hold no separator, and do not start as another value
does. -/
@[mk_iff]
structure Word (cs : List Char) : Prop where
  whole : ∀ c ∈ cs, isSeparator c = false
  first : ∀ c ∈ cs.head?, isAsciiBlank c = false ∧ c ≠ '"' ∧ c ≠ '\''
  truth : ¬['t', 'r', 'u', 'e'] <+: cs
  falsity : ¬['f', 'a', 'l', 's', 'e'] <+: cs

instance (cs : List Char) : Decidable (Word cs) :=
  -- The characters are tried one after another, and not all that there are.
  have : Decidable (∀ c ∈ cs, isSeparator c = false) := List.decidableBAll _ _
  have : Decidable (∀ c ∈ cs.head?, isAsciiBlank c = false ∧ c ≠ '"' ∧ c ≠ '\'') :=
    Option.decidableForallMem _
  decidable_of_iff' _ (word_iff cs)

/-- A name without quotes, or the quote and the string after it. -/
inductive Name : String → List Char → Prop where
  | bare {cs : List Char} : cs ≠ [] → (∀ c ∈ cs, isNameChar c = true) → Name (String.ofList cs) cs
  | quoted {name : String} {body : List Char} : string? body = some (name, []) →
      Name name ('"' :: body)

mutual

/-- Whether characters are a value with the blanks around it. -/
inductive Written : Value → List Char → Prop where
  | word {before word : List Char} : Blanks before → Word word →
      Written (plain word) (before ++ word)
  | closed {v : Value} {before body after : List Char} : Blanks before → Closed v body →
      Blanks after → Written v (before ++ (body ++ after))

/-- Whether characters are a value of which they show the end. -/
inductive Closed : Value → List Char → Prop where
  | truth : Closed (.flag true) ['t', 'r', 'u', 'e']
  | falsity : Closed (.flag false) ['f', 'a', 'l', 's', 'e']
  | text {s : String} {body : List Char} : string? body = some (s, []) →
      Closed (.text s) ('"' :: body)
  | letter (c : Char) : Closed (.letter c) ['\'', c, '\'']
  | list {items : List Value} {body : List Char} : Items items body →
      Closed (.list items) ('[' :: body)
  | table {entries : Table} {body : List Char} : Entries [] entries body →
      Closed (.table entries) ('{' :: body)

/-- Whether characters are the items of a list with the bracket after them. -/
inductive Items : List Value → List Char → Prop where
  | close : Items [] [']']
  | last {v : Value} {cs : List Char} : cs ≠ [] → Written v cs → Items [v] (cs ++ [']'])
  | next {v : Value} {vs : List Value} {cs body : List Char} : Written v cs → Items vs body →
      Items (v :: vs) (cs ++ ',' :: body)

/-- Whether characters are entries, each with its name and an equals sign, and the brace after
them, which added to a table make another. -/
inductive Entries : Table → Table → List Char → Prop where
  | close {t : Table} : Entries t t ['}']
  | last {t : Table} {name : String} {v : Value} {before key after cs : List Char} :
      Blanks before → Name name key → Blanks after → Written v cs →
      Entries t (t.put name v) (before ++ (key ++ (after ++ '=' :: (cs ++ ['}']))))
  | next {t t' : Table} {name : String} {v : Value} {before key after cs body : List Char} :
      Blanks before → Name name key → Blanks after → Written v cs →
      Entries (t.put name v) t' body →
      Entries t t' (before ++ (key ++ (after ++ '=' :: (cs ++ ',' :: body))))

end

/-- Whether characters are a word that is no number and has no blank at its ends. -/
@[mk_iff]
structure Literal (cs : List Char) : Prop where
  word : Word cs
  trimmed : trim cs = cs
  fraction : cs.contains '.' = true → isDecimal cs = false
  unsigned : unsigned64? cs = none
  signed : signed64? cs = none

instance (cs : List Char) : Decidable (Literal cs) := decidable_of_iff' _ (literal_iff cs)

/-- Whether a text does not start with a character of a kind. -/
def Stops (p : Char → Bool) (cs : List Char) : Prop := ∀ c, cs.head? = some c → p c = false

section Stops

variable {p : Char → Bool} {cs rest : List Char}

theorem stops_cons {c : Char} (h : p c = false) : Stops p (c :: rest) := by
  intro d hd
  rwa [← Option.some_inj.mp hd]

theorem stops_dropWhile (p : Char → Bool) (cs : List Char) : Stops p (cs.dropWhile p) := by
  intro c hc
  have h := List.head?_dropWhile_not p cs
  rwa [hc] at h

theorem Stops.dropWhile_eq (h : Stops p rest) : rest.dropWhile p = rest := by
  cases rest with
  | nil => rfl
  | cons c rest => exact List.dropWhile_cons_of_neg (by simp [h c rfl])

theorem Stops.dropWhile_append (h : Stops p rest) (hcs : ∀ c ∈ cs, p c = true) :
    (cs ++ rest).dropWhile p = rest := by
  rw [List.dropWhile_append_of_pos hcs, h.dropWhile_eq]

theorem Stops.takeWhile_append (h : Stops p rest) (hcs : ∀ c ∈ cs, p c = true) :
    (cs ++ rest).takeWhile p = cs := by
  rw [List.takeWhile_append_of_pos hcs]
  cases rest with
  | nil => exact List.append_nil cs
  | cons c rest => rw [List.takeWhile_cons_of_neg (by simp [h c rfl]), List.append_nil]

theorem Stops.append (h : Stops p cs) (hrest : cs = [] → Stops p rest) : Stops p (cs ++ rest) := by
  cases cs with
  | nil => exact hrest rfl
  | cons c cs => exact stops_cons (h c rfl)

theorem Stops.ne_cons {c : Char} (h : Stops (· == c) cs) (rest : List Char) : cs ≠ c :: rest := by
  rintro rfl
  exact absurd (h c rfl) (by simp)

theorem Stops.prefix_of_append {start : List Char} (h : Stops p rest) (hcs : ∀ c ∈ cs, p c = true)
    (hstart : start.all p = true) (hfound : start <+: cs ++ rest) : start <+: cs := by
  obtain ⟨tail, htail⟩ := hfound
  rw [← h.takeWhile_append hcs, ← htail, List.takeWhile_append_of_pos (List.all_eq_true.mp hstart)]
  exact List.prefix_append _ _

theorem false_of_isAsciiBlank {c : Char} (hc : isAsciiBlank c = true)
    (hp : [' ', '\t', '\n', '\x0c', '\r'].any p = false) : p c = false := by
  apply Bool.eq_false_iff.mpr
  apply List.any_eq_false.mp hp
  simp only [isAsciiBlank, Bool.or_eq_true, beq_iff_eq] at hc
  simpa [or_assoc] using hc

theorem Blanks.stops_append {blanks : List Char} (h : Blanks blanks)
    (hp : [' ', '\t', '\n', '\x0c', '\r'].any p = false) (hrest : Stops p rest) :
    Stops p (blanks ++ rest) :=
  Stops.append (fun c hc => false_of_isAsciiBlank (h c (List.mem_of_mem_head? hc)) hp)
    fun _ => hrest

theorem exists_blanks (cs : List Char) :
    ∃ blanks, Blanks blanks ∧ cs = blanks ++ cs.dropWhile isAsciiBlank :=
  ⟨cs.takeWhile isAsciiBlank, fun _ => List.mem_takeWhile_imp,
    List.takeWhile_append_dropWhile.symm⟩

end Stops

/-- Whether a text is one that may go on after a value in a list or a table, or is at its end. -/
def Ends (cs : List Char) : Prop := ∀ c, cs.head? = some c → c = ',' ∨ c = ']' ∨ c = '}'

theorem Ends.stops {rest : List Char} (h : Ends rest) {p : Char → Bool} (hcomma : p ',' = false)
    (hbracket : p ']' = false) (hbrace : p '}' = false) : Stops p rest := by
  intro c hc
  rcases h c hc with rfl | rfl | rfl
  · exact hcomma
  · exact hbracket
  · exact hbrace

theorem ends_nil : Ends [] := nofun

theorem ends_cons {c : Char} {rest : List Char} (h : c = ',' ∨ c = ']' ∨ c = '}') :
    Ends (c :: rest) := by
  intro d hd
  rwa [← Option.some_inj.mp hd]

theorem exists_plain {content body : List Char} (h : Quoted content body) :
    ∃ plain c tail, body = plain ++ c :: tail ∧ (c = '"' ∨ c = '\\') ∧
      ∀ c ∈ plain, (c != '"' && c != '\\') = true := by
  induction h with
  | close => exact ⟨[], _, _, rfl, .inl rfl, nofun⟩
  | @plain c _ _ _ hquote hslash _ ih =>
      obtain ⟨plain, d, tail, rfl, hd, hplain⟩ := ih
      refine ⟨c :: plain, d, tail, rfl, hd, List.forall_mem_cons.mpr ⟨?_, hplain⟩⟩
      simp [hquote, hslash]
  | escape | short | long => exact ⟨[], _, _, rfl, .inr rfl, nofun⟩

theorem length_takeBytes_le (n : Nat) (cs : List Char) : (takeBytes n cs).length ≤ cs.length := by
  induction cs generalizing n with
  | nil => exact Nat.le_refl 0
  | cons c rest ih =>
      rw [takeBytes]
      split
      · exact Nat.zero_le _
      · exact Nat.succ_le_succ (ih _)

theorem string?_of_quoted {content body : List Char} (h : Quoted content body) :
    ∃ s : String, s.toList.length < body.length ∧
      ∀ rest, string? (body ++ rest) = some (s, rest) := by
  have hlength := h.length_lt
  obtain ⟨plain, c, tail, rfl, hc, hplain⟩ := exists_plain h
  have htake : ∀ rest, (plain ++ c :: tail ++ rest).takeWhile (fun c => c != '"' && c != '\\') =
      plain := by
    intro rest
    rw [List.append_assoc]
    apply Stops.takeWhile_append _ hplain
    rcases hc with rfl | rfl <;> exact stops_cons rfl
  have hdrop : ∀ rest, (plain ++ c :: tail ++ rest).drop plain.length = c :: (tail ++ rest) := by
    intro rest
    rw [List.append_assoc, List.drop_left]
    rfl
  rcases hc with rfl | rfl
  · refine ⟨String.ofList content, by rwa [String.toList_ofList], fun rest => ?_⟩
    rw [string?, h.read, Option.map_some, htake]
    dsimp only
    rw [hdrop]
    rfl
  · refine ⟨String.ofList (takeBytes plain.length plain ++ content.drop plain.length), ?_, ?_⟩
    · have hkept := length_takeBytes_le plain.length plain
      simp only [String.toList_ofList, List.length_append, List.length_drop,
        List.length_cons] at hlength ⊢
      omega
    · intro rest
      rw [string?, h.read, Option.map_some, htake]
      dsimp only
      rw [hdrop]
      rfl

theorem exists_of_string? {cs rest : List Char} {s : String} (h : string? cs = some (s, rest)) :
    ∃ body, cs = body ++ rest ∧ s.toList.length < body.length ∧
      ∀ rest', string? (body ++ rest') = some (s, rest') := by
  obtain ⟨⟨content, rest'⟩, hread, hs⟩ := Option.map_eq_some_iff.mp h
  obtain ⟨body, rfl, hbody⟩ := quoted_of_read hread
  obtain ⟨s', hlength, hstring⟩ := string?_of_quoted hbody
  obtain ⟨rfl, rfl⟩ := Prod.mk.inj (Option.some_inj.mp ((hstring rest').symm.trans h))
  exact ⟨body, rfl, hlength, hstring⟩

theorem string?_eq_some_iff {cs rest : List Char} {s : String} :
    string? cs = some (s, rest) ↔ ∃ body, cs = body ++ rest ∧ string? body = some (s, []) := by
  constructor
  · intro h
    obtain ⟨body, rfl, -, hstring⟩ := exists_of_string? h
    exact ⟨body, rfl, by simpa using hstring []⟩
  · rintro ⟨body, rfl, h⟩
    obtain ⟨body', rfl, -, hstring⟩ := exists_of_string? h
    rw [List.append_nil]
    exact hstring rest

theorem length_lt_of_string? {body : List Char} {s : String} (h : string? body = some (s, [])) :
    s.toList.length < body.length := by
  obtain ⟨body', rfl, hlength, -⟩ := exists_of_string? h
  rwa [List.append_nil]

theorem Word.stops {word : List Char} (h : Word word) {rest : List Char} (hrest : Ends rest) :
    Stops isAsciiBlank (word ++ rest) :=
  Stops.append (fun c hc => (h.first c hc).1) fun _ => hrest.stops rfl rfl rfl

theorem Closed.stops {v : Value} {body : List Char} (h : Closed v body) (rest : List Char) :
    Stops isAsciiBlank (body ++ rest) := by
  cases h <;> exact stops_cons rfl

theorem Written.stops {v : Value} {cs : List Char} (h : Written v cs) : Stops (· == ']') cs := by
  cases h with
  | word hbefore hword =>
      apply hbefore.stops_append rfl
      intro c hc
      have hwhole := hword.whole c (List.mem_of_mem_head? hc)
      apply beq_eq_false_iff_ne.mpr
      rintro rfl
      exact absurd hwhole (by decide)
  | closed hbefore hbody =>
      apply hbefore.stops_append rfl
      cases hbody <;> exact stops_cons rfl

theorem Name.stops {name : String} {key : List Char} (h : Name name key) {p : Char → Bool}
    (hquote : p '"' = false) (hname : ∀ c, isNameChar c = true → p c = false) (rest : List Char) :
    Stops p (key ++ rest) := by
  cases h with
  | bare hne hall =>
      exact Stops.append (fun c hc => hname c (hall c (List.mem_of_mem_head? hc)))
        fun h => absurd h hne
  | quoted => exact stops_cons hquote

theorem bare?_of_word {word rest : List Char} (h : Word word) (hrest : Ends rest) (fuel : Nat) :
    bare? (fuel + 1) (word ++ rest) = some (plain word, rest) := by
  have hstop : Stops (fun c => !isSeparator c) rest := hrest.stops rfl rfl rfl
  have hwhole : ∀ c ∈ word, (!isSeparator c) = true := by
    intro c hc
    rw [h.whole c hc]
    rfl
  have hhead : ∀ c tail, word ++ rest = c :: tail → c ≠ '{' ∧ c ≠ '[' ∧ c ≠ '"' ∧ c ≠ '\'' := by
    intro c tail hc
    cases word with
    | nil => rcases hrest c (congrArg List.head? hc) with rfl | rfl | rfl <;> decide
    | cons d word =>
        obtain ⟨rfl, -⟩ := List.cons.inj hc
        obtain ⟨-, hquote, hmark⟩ := h.first d rfl
        have hd := h.whole d List.mem_cons_self
        refine ⟨?_, ?_, hquote, hmark⟩ <;> rintro rfl <;> exact absurd hd (by decide)
  rw [bare?, hstop.takeWhile_append hwhole, hstop.dropWhile_append hwhole]
  · intro tail htail
    exact h.truth (hstop.prefix_of_append hwhole rfl ⟨tail, htail.symm⟩)
  · intro tail htail
    exact h.falsity (hstop.prefix_of_append hwhole rfl ⟨tail, htail.symm⟩)
  · exact fun tail htail => (hhead _ _ htail).1 rfl
  · exact fun tail htail => (hhead _ _ htail).2.1 rfl
  · exact fun tail htail => (hhead _ _ htail).2.2.1 rfl
  · exact fun tail htail => (hhead _ _ htail).2.2.2 rfl

theorem name?_of_name {name : String} {key rest : List Char} (h : Name name key)
    (hrest : Stops isNameChar rest) : name? (key ++ rest) = some (name, rest) := by
  cases h with
  | bare hne hall =>
      have hquote : Stops (· == '"') (key ++ rest) := by
        apply Stops.append _ fun h => absurd h hne
        intro c hc
        apply beq_eq_false_iff_ne.mpr
        rintro rfl
        exact absurd (hall _ (List.mem_of_mem_head? hc)) (by decide)
      rw [name?, hrest.takeWhile_append hall, hrest.dropWhile_append hall]
      · cases key with
        | nil => exact absurd rfl hne
        | cons c key => rfl
      · exact hquote.ne_cons
  | quoted hstring =>
      rw [List.cons_append, name?]
      exact string?_eq_some_iff.mpr ⟨_, rfl, hstring⟩

theorem entries?_of_name {before key after : List Char} {name : String} (hbefore : Blanks before)
    (hname : Name name key) (hafter : Blanks after) (fuel : Nat) (t : Table) (cs : List Char) :
    entries? (fuel + 1) t (before ++ (key ++ (after ++ '=' :: cs))) =
      match value? fuel cs with
      | some (v, ',' :: rest) => entries? fuel (t.put name v) rest
      | some (v, '}' :: rest) => some (t.put name v, rest)
      | _ => none := by
  have hblank : ∀ c, isNameChar c = true → isAsciiBlank c = false := by
    intro c hc
    apply Bool.eq_false_iff.mpr
    intro hblank
    have hfree : isNameChar c = false := false_of_isAsciiBlank hblank rfl
    exact absurd (hfree.symm.trans hc) nofun
  have hbrace : ∀ c, isNameChar c = true → (c == '}') = false := by
    intro c hc
    apply beq_eq_false_iff_ne.mpr
    rintro rfl
    exact absurd hc (by decide)
  have hkey : Stops isAsciiBlank (key ++ (after ++ '=' :: cs)) := hname.stops rfl hblank _
  have hequals : Stops isAsciiBlank ('=' :: cs) := stops_cons rfl
  have hstart : Stops (· == '}') (before ++ (key ++ (after ++ '=' :: cs))) :=
    hbefore.stops_append rfl (hname.stops rfl hbrace _)
  have hend : Stops isNameChar (after ++ '=' :: cs) :=
    hafter.stops_append rfl (stops_cons rfl)
  rw [entries?, hkey.dropWhile_append hbefore, name?_of_name hname hend]
  · dsimp only
    rw [hequals.dropWhile_append hafter]
    rfl
  · exact hstart.ne_cons

/-- Whether what is written is read with an amount of fuel: one character takes two levels at
most. -/
structure Complete (fuel : Nat) : Prop where
  value : ∀ {v body rest}, Written v body → Ends rest → 2 * body.length + 2 ≤ fuel →
    value? fuel (body ++ rest) = some (v, rest)
  closed : ∀ {v body}, Closed v body → 2 * body.length + 1 ≤ fuel → ∀ rest,
    bare? fuel (body ++ rest) = some (v, rest)
  items : ∀ {vs body}, Items vs body → 2 * body.length + 1 ≤ fuel → ∀ rest,
    items? fuel (body ++ rest) = some (vs, rest)
  entries : ∀ {t t' body}, Entries t t' body → 2 * body.length + 1 ≤ fuel → ∀ rest,
    entries? fuel t (body ++ rest) = some (t', rest)

namespace Complete

variable {fuel : Nat}

theorem value_succ (h : Complete fuel) {v : Value} {cs rest : List Char} (hv : Written v cs)
    (hrest : Ends rest) (hfuel : 2 * cs.length + 2 ≤ fuel + 1) :
    value? (fuel + 1) (cs ++ rest) = some (v, rest) := by
  have hstop : Stops isAsciiBlank rest := hrest.stops rfl rfl rfl
  rw [value?]
  cases hv with
  | @word before word hbefore hword =>
      obtain ⟨k, rfl⟩ := Nat.exists_eq_add_of_le' (show 1 ≤ fuel by omega)
      rw [List.append_assoc, (hword.stops hrest).dropWhile_append hbefore,
        bare?_of_word hword hrest, Option.map_some, hstop.dropWhile_eq]
  | @closed _ before body after hbefore hbody hafter =>
      simp only [List.length_append] at hfuel
      rw [List.append_assoc, List.append_assoc, (hbody.stops _).dropWhile_append hbefore,
        h.closed hbody (by omega), Option.map_some, hstop.dropWhile_append hafter]

theorem closed_succ (h : Complete fuel) {v : Value} {body : List Char} (hv : Closed v body)
    (hfuel : 2 * body.length + 1 ≤ fuel + 1) (rest : List Char) :
    bare? (fuel + 1) (body ++ rest) = some (v, rest) := by
  cases hv with
  | truth | falsity | letter => simp only [List.cons_append, List.nil_append, bare?]
  | text hs =>
      rw [List.cons_append, bare?, string?_eq_some_iff.mpr ⟨_, rfl, hs⟩]
      rfl
  | list hitems =>
      rw [List.length_cons] at hfuel
      rw [List.cons_append, bare?, h.items hitems (by omega)]
      rfl
  | table hentries =>
      rw [List.length_cons] at hfuel
      rw [List.cons_append, bare?, h.entries hentries (by omega)]
      rfl

theorem items_succ (h : Complete fuel) {vs : List Value} {body : List Char} (hvs : Items vs body)
    (hfuel : 2 * body.length + 1 ≤ fuel + 1) (rest : List Char) :
    items? (fuel + 1) (body ++ rest) = some (vs, rest) := by
  cases hvs with
  | close => rw [List.singleton_append, items?]
  | @last v cs hne hv =>
      have hstart : Stops (· == ']') (cs ++ ']' :: rest) := hv.stops.append fun h => absurd h hne
      rw [List.length_append, List.length_singleton] at hfuel
      rw [List.append_assoc, List.singleton_append, items?,
        h.value hv (ends_cons (.inr (.inl rfl))) (by omega)]
      · rfl
      · exact hstart.ne_cons
  | @next v vs cs body hv hvs =>
      have hstart : Stops (· == ']') (cs ++ ',' :: (body ++ rest)) :=
        hv.stops.append fun _ => stops_cons rfl
      rw [List.length_append, List.length_cons] at hfuel
      rw [List.append_assoc, List.cons_append, items?,
        h.value hv (ends_cons (.inl rfl)) (by omega)]
      · simp only [h.items hvs (by omega), Option.map_some]
      · exact hstart.ne_cons

theorem entries_succ (h : Complete fuel) {t t' : Table} {body : List Char}
    (ht : Entries t t' body) (hfuel : 2 * body.length + 1 ≤ fuel + 1) (rest : List Char) :
    entries? (fuel + 1) t (body ++ rest) = some (t', rest) := by
  cases ht with
  | close => rw [List.singleton_append, entries?]
  | last hbefore hname hafter hv =>
      simp only [List.length_append, List.length_cons] at hfuel
      simp only [List.append_assoc, List.cons_append, List.nil_append]
      rw [entries?_of_name hbefore hname hafter,
        h.value hv (ends_cons (.inr (.inr rfl))) (by omega)]
      rfl
  | next hbefore hname hafter hv ht =>
      simp only [List.length_append, List.length_cons] at hfuel
      simp only [List.append_assoc, List.cons_append]
      rw [entries?_of_name hbefore hname hafter, h.value hv (ends_cons (.inl rfl)) (by omega)]
      exact h.entries ht (by omega) rest

end Complete

theorem complete (fuel : Nat) : Complete fuel := by
  induction fuel with
  | zero => exact ⟨nofun, nofun, nofun, nofun⟩
  | succ fuel ih => exact ⟨ih.value_succ, ih.closed_succ, ih.items_succ, ih.entries_succ⟩

theorem name_of_read {cs rest : List Char} {name : String} (h : name? cs = some (name, rest)) :
    ∃ key, cs = key ++ rest ∧ Name name key := by
  unfold name? at h
  split at h
  · obtain ⟨body, rfl, hbody⟩ := string?_eq_some_iff.mp h
    exact ⟨'"' :: body, rfl, .quoted hbody⟩
  · split at h
    · exact absurd h nofun
    · rename_i hne
      obtain ⟨rfl, rfl⟩ := Prod.mk.inj (Option.some_inj.mp h)
      exact ⟨_, List.takeWhile_append_dropWhile.symm,
        .bare (hne · ) fun _ => List.mem_takeWhile_imp⟩

theorem word_takeWhile {cs : List Char} (hstop : Stops isAsciiBlank cs)
    (htruth : ∀ rest, cs ≠ 't' :: 'r' :: 'u' :: 'e' :: rest)
    (hfalsity : ∀ rest, cs ≠ 'f' :: 'a' :: 'l' :: 's' :: 'e' :: rest)
    (hquote : ∀ rest, cs ≠ '"' :: rest) (hmark : ∀ rest, cs ≠ '\'' :: rest) :
    Word (cs.takeWhile fun c => !isSeparator c) := by
  have hstart : ∀ start, start <+: (cs.takeWhile fun c => !isSeparator c) →
      ∃ rest, cs = start ++ rest := by
    intro start h
    obtain ⟨rest, hrest⟩ := h.trans (List.takeWhile_prefix _)
    exact ⟨rest, hrest.symm⟩
  constructor
  · intro c hc
    simpa using List.mem_takeWhile_imp hc
  · intro c hc
    obtain ⟨tail, htail⟩ := List.head?_eq_some_iff.mp hc
    obtain ⟨rest, rfl⟩ := hstart [c] ⟨tail, htail.symm⟩
    refine ⟨hstop c rfl, ?_, ?_⟩
    · rintro rfl
      exact hquote rest rfl
    · rintro rfl
      exact hmark rest rfl
  · intro h
    obtain ⟨rest, hrest⟩ := hstart _ h
    exact htruth rest hrest
  · intro h
    obtain ⟨rest, hrest⟩ := hstart _ h
    exact hfalsity rest hrest

theorem stops_of_word (cs : List Char) :
    Stops isAsciiBlank (cs.dropWhile fun c => !isSeparator c) := by
  intro c hc
  have hsep := stops_dropWhile _ cs c hc
  apply Bool.eq_false_iff.mpr
  intro hblank
  have hfree : isSeparator c = false := false_of_isAsciiBlank hblank rfl
  rw [hfree] at hsep
  exact absurd hsep nofun

/-- Whether what is read with an amount of fuel is written. A word ends where no blank is. -/
structure Sound (fuel : Nat) : Prop where
  value : ∀ {cs rest v}, value? fuel cs = some (v, rest) →
    ∃ body, cs = body ++ rest ∧ Written v body
  bare : ∀ {cs rest v}, Stops isAsciiBlank cs → bare? fuel cs = some (v, rest) →
    ∃ body, cs = body ++ rest ∧
      (Closed v body ∨ Word body ∧ v = plain body ∧ Stops isAsciiBlank rest)
  items : ∀ {cs rest vs}, items? fuel cs = some (vs, rest) →
    ∃ body, cs = body ++ rest ∧ Items vs body
  entries : ∀ {cs rest t t'}, entries? fuel t cs = some (t', rest) →
    ∃ body, cs = body ++ rest ∧ Entries t t' body

namespace Sound

variable {fuel : Nat} {cs rest : List Char}

theorem value_succ (h : Sound fuel) {v : Value} (hread : value? (fuel + 1) cs = some (v, rest)) :
    ∃ body, cs = body ++ rest ∧ Written v body := by
  obtain ⟨⟨w, tail⟩, hbare, hpair⟩ := Option.map_eq_some_iff.mp hread
  obtain ⟨rfl, rfl⟩ := Prod.mk.inj hpair
  obtain ⟨before, hbefore, hcs⟩ := exists_blanks cs
  obtain ⟨after, hafter, htail⟩ := exists_blanks tail
  obtain ⟨body, hbody, hclosed | ⟨hword, rfl, hstop⟩⟩ := h.bare (stops_dropWhile _ cs) hbare
  · refine ⟨before ++ (body ++ after), ?_, .closed hbefore hclosed hafter⟩
    simp only [List.append_assoc]
    rw [← htail, ← hbody]
    exact hcs
  · refine ⟨before ++ body, ?_, .word hbefore hword⟩
    rw [hstop.dropWhile_eq, List.append_assoc, ← hbody]
    exact hcs

theorem bare_succ (h : Sound fuel) {v : Value} (hstop : Stops isAsciiBlank cs)
    (hread : bare? (fuel + 1) cs = some (v, rest)) :
    ∃ body, cs = body ++ rest ∧
      (Closed v body ∨ Word body ∧ v = plain body ∧ Stops isAsciiBlank rest) := by
  unfold bare? at hread
  split at hread
  case h_1 => exact absurd hread nofun
  case h_2 =>
    obtain ⟨rfl, rfl⟩ := Prod.mk.inj (Option.some_inj.mp hread)
    exact ⟨_, rfl, .inl .truth⟩
  case h_3 =>
    obtain ⟨rfl, rfl⟩ := Prod.mk.inj (Option.some_inj.mp hread)
    exact ⟨_, rfl, .inl .falsity⟩
  case h_4 hfuel =>
    obtain rfl := Nat.succ.inj hfuel
    obtain ⟨⟨t, tail⟩, hentries, hpair⟩ := Option.map_eq_some_iff.mp hread
    obtain ⟨rfl, rfl⟩ := Prod.mk.inj hpair
    obtain ⟨body, rfl, hbody⟩ := h.entries hentries
    exact ⟨'{' :: body, rfl, .inl (.table hbody)⟩
  case h_5 hfuel =>
    obtain rfl := Nat.succ.inj hfuel
    obtain ⟨⟨vs, tail⟩, hitems, hpair⟩ := Option.map_eq_some_iff.mp hread
    obtain ⟨rfl, rfl⟩ := Prod.mk.inj hpair
    obtain ⟨body, rfl, hbody⟩ := h.items hitems
    exact ⟨'[' :: body, rfl, .inl (.list hbody)⟩
  case h_6 =>
    obtain ⟨⟨s, tail⟩, hstring, hpair⟩ := Option.map_eq_some_iff.mp hread
    obtain ⟨rfl, rfl⟩ := Prod.mk.inj hpair
    obtain ⟨body, rfl, hbody⟩ := string?_eq_some_iff.mp hstring
    exact ⟨'"' :: body, rfl, .inl (.text hbody)⟩
  case h_7 =>
    split at hread
    · obtain ⟨rfl, rfl⟩ := Prod.mk.inj (Option.some_inj.mp hread)
      exact ⟨_, rfl, .inl (.letter _)⟩
    · exact absurd hread nofun
  case h_8 htruth hfalsity _ _ hquote hmark =>
    obtain ⟨rfl, rfl⟩ := Prod.mk.inj (Option.some_inj.mp hread)
    exact ⟨_, List.takeWhile_append_dropWhile.symm,
      .inr ⟨word_takeWhile hstop htruth hfalsity hquote hmark, rfl, stops_of_word _⟩⟩

theorem items_succ (h : Sound fuel) {vs : List Value}
    (hread : items? (fuel + 1) cs = some (vs, rest)) :
    ∃ body, cs = body ++ rest ∧ Items vs body := by
  unfold items? at hread
  split at hread
  case h_1 => exact absurd hread nofun
  case h_2 =>
    obtain ⟨rfl, rfl⟩ := Prod.mk.inj (Option.some_inj.mp hread)
    exact ⟨_, rfl, .close⟩
  case h_3 hfuel hopen =>
    obtain rfl := Nat.succ.inj hfuel
    split at hread
    · rename_i hv
      obtain ⟨⟨ws, tail⟩, hws, hpair⟩ := Option.map_eq_some_iff.mp hread
      obtain ⟨rfl, rfl⟩ := Prod.mk.inj hpair
      obtain ⟨w, rfl, hw⟩ := h.value hv
      obtain ⟨body, rfl, hbody⟩ := h.items hws
      exact ⟨w ++ ',' :: body, by simp, .next hw hbody⟩
    · rename_i hv
      obtain ⟨rfl, rfl⟩ := Prod.mk.inj (Option.some_inj.mp hread)
      obtain ⟨w, rfl, hw⟩ := h.value hv
      have hne : w ≠ [] := by
        rintro rfl
        exact hopen _ rfl
      exact ⟨w ++ [']'], by simp, .last hne hw⟩
    · exact absurd hread nofun

theorem entries_succ (h : Sound fuel) {t t' : Table}
    (hread : entries? (fuel + 1) t cs = some (t', rest)) :
    ∃ body, cs = body ++ rest ∧ Entries t t' body := by
  unfold entries? at hread
  split at hread
  case h_1 => exact absurd hread nofun
  case h_2 =>
    obtain ⟨rfl, rfl⟩ := Prod.mk.inj (Option.some_inj.mp hread)
    exact ⟨_, rfl, .close⟩
  case h_3 cs _ _ _ _ hfuel _ =>
    obtain rfl := Nat.succ.inj hfuel
    split at hread
    · exact absurd hread nofun
    · rename_i name tail hname
      obtain ⟨before, hbefore, hcs⟩ := exists_blanks cs
      obtain ⟨key, hkey, hname⟩ := name_of_read hname
      obtain ⟨after, hafter, htail⟩ := exists_blanks tail
      split at hread
      · rename_i tail' hequals
        rw [hequals] at htail
        rw [hkey, htail] at hcs
        split at hread
        · rename_i hv
          obtain ⟨w, rfl, hw⟩ := h.value hv
          obtain ⟨body, rfl, hbody⟩ := h.entries hread
          exact ⟨_, by rw [hcs]; simp, .next hbefore hname hafter hw hbody⟩
        · rename_i hv
          obtain ⟨w, rfl, hw⟩ := h.value hv
          obtain ⟨rfl, rfl⟩ := Prod.mk.inj (Option.some_inj.mp hread)
          exact ⟨_, by rw [hcs]; simp, .last hbefore hname hafter hw⟩
        · exact absurd hread nofun
      · exact absurd hread nofun

end Sound

theorem sound (fuel : Nat) : Sound fuel := by
  induction fuel with
  | zero => exact ⟨nofun, nofun, nofun, nofun⟩
  | succ fuel ih => exact ⟨ih.value_succ, ih.bare_succ, ih.items_succ, ih.entries_succ⟩

theorem read_of_written {line : String} {v : Value} (h : Written v line.toList) :
    read line = v := by
  have hfuel : 2 * line.toList.length + 2 ≤ 2 * line.toList.length + 4 := by omega
  have hv := (complete _).value h ends_nil hfuel
  rw [List.append_nil] at hv
  unfold read
  dsimp only
  rw [hv]

theorem read_of_unwritten {line : String} (h : ∀ v, ¬Written v line.toList) :
    read line = .text line := by
  unfold read
  dsimp only
  split
  · rename_i v hv
    obtain ⟨body, hbody, hw⟩ := (sound _).value hv
    rw [List.append_nil] at hbody
    rw [hbody] at h
    exact absurd hw (h v)
  · rfl

/-- A line is read as the value that is written in it, or as it stands if there is none. -/
theorem read_eq_iff (line : String) (v : Value) :
    read line = v ↔
      Written v line.toList ∨ (∀ w, ¬Written w line.toList) ∧ v = .text line := by
  constructor
  · rintro rfl
    by_cases h : ∃ v, Written v line.toList
    · obtain ⟨v, hv⟩ := h
      rw [read_of_written hv]
      exact .inl hv
    · have hnone : ∀ v, ¬Written v line.toList := fun v hv => h ⟨v, hv⟩
      exact .inr ⟨hnone, read_of_unwritten hnone⟩
  · rintro (h | ⟨h, rfl⟩)
    · exact read_of_written h
    · exact read_of_unwritten h

theorem plain_eq_text_iff (word : List Char) (s : String) :
    plain word = .text s ↔ s = String.ofList (trim word) ∧
      ((trim word).contains '.' = true → isDecimal (trim word) = false) ∧
      unsigned64? (trim word) = none ∧ signed64? (trim word) = none := by
  unfold plain
  dsimp only
  generalize trim word = cs
  cases cs.contains '.' <;> cases isDecimal cs <;> cases unsigned64? cs <;>
    cases signed64? cs <;> simp [eq_comm]

theorem length_trim_le (cs : List Char) : (trim cs).length ≤ cs.length := by
  rw [trim, List.length_reverse]
  calc ((cs.dropWhile isBlank).reverse.dropWhile isBlank).length
      ≤ (cs.dropWhile isBlank).reverse.length := List.length_dropWhile_le _ _
    _ = (cs.dropWhile isBlank).length := List.length_reverse
    _ ≤ cs.length := List.length_dropWhile_le _ _

theorem written_text_iff (line : String) :
    Written (.text line) line.toList ↔ Literal line.toList := by
  constructor
  · intro h
    generalize hv : Value.text line = v at h
    generalize hcs : line.toList = cs at h
    cases h with
    | @word before word hbefore hword =>
        obtain ⟨hline, hfraction, hunsigned, hsigned⟩ := (plain_eq_text_iff _ _).mp hv.symm
        have htrim : before ++ word = trim word := by
          rw [← hcs, hline, String.toList_ofList]
        have hlength := congrArg List.length htrim
        rw [List.length_append] at hlength
        have hshort := length_trim_le word
        obtain rfl : before = [] := List.eq_nil_of_length_eq_zero (by omega)
        rw [List.nil_append] at htrim ⊢
        rw [← htrim] at hfraction hunsigned hsigned
        exact ⟨hword, htrim.symm, hfraction, hunsigned, hsigned⟩
    -- A string in quotes is longer than the text that it holds.
    | closed hbefore hbody hafter =>
        cases hbody with
        | text hs =>
            obtain rfl := Value.text.inj hv
            have hshort := length_lt_of_string? hs
            rw [hcs] at hshort
            simp only [List.length_append, List.length_cons] at hshort
            omega
        | _ => exact absurd hv nofun
  · intro h
    have hplain : plain line.toList = .text line := by
      rw [plain_eq_text_iff, h.trimmed, String.ofList_toList]
      exact ⟨rfl, h.fraction, h.unsigned, h.signed⟩
    have hwritten : Written (plain line.toList) ([] ++ line.toList) := .word nofun h.word
    rwa [hplain] at hwritten

theorem Written.length_of_letter {c : Char} {cs : List Char} (h : Written (.letter c) cs) :
    3 ≤ cs.length := by
  generalize hv : Value.letter c = v at h
  cases h with
  | word =>
      rcases plain_cases _ with ⟨_, hplain⟩ | ⟨_, hplain⟩ <;>
        exact absurd (hv.trans hplain) nofun
  | closed _ hbody =>
      subst hv
      cases hbody
      simp only [List.length_append, List.length_cons]
      omega

/-- The lines that are read as they stand. -/
theorem read_eq_text_iff (line : String) :
    read line = .text line ↔ (∀ v, ¬Written v line.toList) ∨ Literal line.toList := by
  rw [read_eq_iff, written_text_iff, and_iff_left rfl, or_comm]

example : Literal "chaind_core=debug".toList ∧ ¬Literal "5".toList := by decide

end Inline

end JobScheduler
