import DocTree.Markup.Declaration
import DocTree.Proofs.Conversion

/-!
Reading document type declarations. A declaration that is written with any blanks, quotes and letter
case is read back as it was meant; and the pattern of declarations matches every text, its groups
holding what is read. Main statements: `Declaration.read_written`, `Doctype.exists_match?_pattern`
and `newDoctype_read`.
-/
namespace DocTree.Markup

open Text

namespace Doctype

section Readers

variable {letter c : Char} {letters a rest s : List Char}

theorem isLetter_eq_false (hl : isBlank letter = false) (hc : isBlank c) :
    isLetter letter c = false := by
  have hlower : c.toLower = c := by
    rw [Char.toLower, dif_neg]
    rintro ⟨hlow, hhigh⟩
    have hlow : 65 ≤ c.toNat := hlow
    have hhigh : c.toNat ≤ 90 := hhigh
    simp only [isBlank, Bool.or_eq_true, Bool.and_eq_true, decide_eq_true_eq] at hc
    omega
  by_contra h
  rw [Bool.not_eq_false, isLetter, hlower] at h
  simp only [Bool.or_eq_true, Bool.and_eq_true, decide_eq_true_eq] at h
  rcases h with (rfl | ⟨-, rfl⟩) | ⟨-, rfl | rfl⟩
  · rw [hc] at hl
    cases hl
  all_goals exact absurd hc (by decide)

theorem keyword?_eq_some_iff :
    keyword? letters s = some rest ↔ ∃ a, Spells letters a ∧ s = a ++ rest := by
  induction letters generalizing s with
  | nil =>
    rw [keyword?]
    constructor
    · rintro ⟨⟩
      exact ⟨[], trivial, rfl⟩
    · rintro ⟨a, ha, rfl⟩
      cases a with
      | nil => rfl
      | cons c a => exact ha.elim
  | cons letter letters ih =>
    constructor
    · intro h
      cases s with
      | nil => cases h
      | cons c s =>
        rw [keyword?] at h
        split at h
        · rename_i hc
          obtain ⟨a, ha, rfl⟩ := ih.1 h
          exact ⟨c :: a, ⟨hc, ha⟩, rfl⟩
        · cases h
    · rintro ⟨a, ha, rfl⟩
      cases a with
      | nil => exact ha.elim
      | cons c a =>
        rw [List.cons_append, keyword?, if_pos ha.1]
        exact ih.2 ⟨a, ha.2, rfl⟩

/-- Blanks can only be looked for behind the letters, not among them. -/
theorem keyword?_cons_blank (hl : isBlank letter = false) (hc : isBlank c) :
    keyword? (letter :: letters) (c :: s) = none := by
  rw [keyword?, isLetter_eq_false hl hc]
  rfl

theorem blanks?_cons_blank (hc : isBlank c) : blanks? (c :: s) = some (s.dropWhile isBlank) := by
  rw [blanks?, if_pos hc]

theorem blanks?_cons (hc : isBlank c = false) : blanks? (c :: s) = none := by
  rw [blanks?, hc]
  rfl

theorem quoted?_cons (q : Char) : quoted? (q :: s) =
    if q = '\x22' ∨ q = '\x27' then
      (s.dropWhile (· ≠ q)).tail?.map fun rest => (s.takeWhile (· ≠ q), rest)
    else none := by
  rw [quoted?]
  cases s.dropWhile (· ≠ q) <;> rfl

theorem dropWhile_eq_of_tail? {q : Char} (h : (s.dropWhile (· ≠ q)).tail? = some rest) :
    s.dropWhile (· ≠ q) = q :: rest := by
  have hhead := List.head?_dropWhile_not (· ≠ q) s
  cases hdrop : s.dropWhile (· ≠ q) with
  | nil =>
    rw [hdrop] at h
    cases h
  | cons d rest' =>
    rw [hdrop] at h hhead
    cases h
    have hd : d = q := by simpa using hhead
    rw [hd]

theorem quoted?_eq_some_iff {content : List Char} : quoted? s = some (content, rest) ↔
    ∃ q, (q = '\x22' ∨ q = '\x27') ∧ q ∉ content ∧ s = q :: (content ++ q :: rest) := by
  cases s with
  | nil => simp [quoted?]
  | cons q s =>
    rw [quoted?_cons]
    constructor
    · intro h
      split at h
      · rename_i hq
        obtain ⟨rest', hrest, h⟩ := Option.map_eq_some_iff.1 h
        cases h
        have hmem : q ∉ s.takeWhile (· ≠ q) := fun hmem => by
          simpa using List.mem_takeWhile_imp hmem
        have hs := List.takeWhile_append_dropWhile (p := (· ≠ q)) (l := s)
        rw [dropWhile_eq_of_tail? hrest] at hs
        exact ⟨q, hq, hmem, congrArg _ hs.symm⟩
      · cases h
    · rintro ⟨q', hq, hmem, h⟩
      cases h
      have hne : ∀ c ∈ content, decide (c ≠ q) = true := fun c hc =>
        decide_eq_true fun h => hmem (h ▸ hc)
      rw [if_pos hq, List.dropWhile_append_of_pos hne, List.takeWhile_append_of_pos hne]
      simp

end Readers

end Doctype

open Doctype

section Written

variable {letter c : Char} {letters a rest s : List Char}

theorem Spells.isBlank_eq_false (h : Spells letters a) (hl : ∀ l ∈ letters, isBlank l = false)
    (hc : c ∈ a) : isBlank c = false := by
  induction letters generalizing a with
  | nil =>
    cases a with
    | nil => cases hc
    | cons => exact h.elim
  | cons letter letters ih =>
    cases a with
    | nil => exact h.elim
    | cons d a =>
      rcases List.mem_cons.1 hc with rfl | hc
      · by_contra hblank
        rw [Bool.not_eq_false] at hblank
        have := isLetter_eq_false (hl letter List.mem_cons_self) hblank
        rw [h.1] at this
        cases this
      · exact ih h.2 (fun l hmem => hl l (List.mem_cons_of_mem _ hmem)) hc

theorem Spelling.dropWhile_append (w : Spelling (letter :: letters)) (hl : isBlank letter = false)
    (rest : List Char) : (w.chars ++ rest).dropWhile isBlank = w.chars ++ rest := by
  obtain ⟨chars, h⟩ := w
  cases chars with
  | nil => exact h.elim
  | cons c chars =>
    refine List.dropWhile_cons_of_neg fun hc => ?_
    rw [Spells, isLetter_eq_false hl hc] at h
    cases h.1

theorem Gap.blanks?_append (g : Gap) (h : rest.dropWhile isBlank = rest) :
    blanks? (g.chars ++ rest) = some rest := by
  obtain ⟨chars, hne, hblank⟩ := g
  cases chars with
  | nil => exact absurd rfl hne
  | cons c chars =>
    have hc := hblank c List.mem_cons_self
    have hchars : ∀ d ∈ chars, isBlank d := fun d hd => hblank d (List.mem_cons_of_mem _ hd)
    rw [List.cons_append, blanks?_cons_blank hc, List.dropWhile_append_of_pos hchars, h]

theorem Quotation.dropWhile_append (q : Quotation) (rest : List Char) :
    (q.written ++ rest).dropWhile isBlank = q.written ++ rest := by
  refine List.dropWhile_cons_of_neg ?_
  rcases q.isQuote with h | h <;> rw [h] <;> decide

theorem Quotation.quoted?_append (q : Quotation) (rest : List Char) :
    quoted? (q.written ++ rest) = some (q.content, rest) :=
  quoted?_eq_some_iff.2 ⟨q.quote, q.isQuote, q.unbroken, by simp [written]⟩

theorem spaced?_append (before : Gap) (w : Spelling (letter :: letters)) (between : Gap)
    (hl : isBlank letter = false) (h : rest.dropWhile isBlank = rest) :
    spaced? (letter :: letters) (before.chars ++ (w.chars ++ (between.chars ++ rest))) =
      some rest := by
  rw [spaced?, before.blanks?_append (w.dropWhile_append hl _), Option.bind_some,
    keyword?_eq_some_iff.2 ⟨w.chars, w.spells, rfl⟩, Option.bind_some, between.blanks?_append h]

end Written

namespace ExternalId

theorem spaced?_public_system (before : Gap) (w : Spelling ['s', 'y', 's', 't', 'e', 'm'])
    (rest : List Char) :
    spaced? ['p', 'u', 'b', 'l', 'i', 'c'] (before.chars ++ (w.chars ++ rest)) = none := by
  rw [spaced?, before.blanks?_append (w.dropWhile_append rfl _), Option.bind_some]
  obtain ⟨chars, h⟩ := w
  cases chars with
  | nil => exact h.elim
  | cons c chars =>
    have hp : isLetter 'p' c = false := by
      have hs := h.1
      simp only [isLetter, Bool.or_eq_true, Bool.and_eq_true, decide_eq_true_eq] at hs
      rcases hs with (hs | ⟨-, rfl⟩) | ⟨hs, -⟩
      · simp [isLetter, hs]
      · decide
      · cases hs
    rw [List.cons_append, keyword?, hp]
    rfl

theorem identifiers_written (e : ExternalId) : identifiers e.written =
    (e.publicId?.bind fun q => identifier? q.content,
      e.systemId?.bind fun q => identifier? q.content) := by
  cases e with
  | absent => rfl
  | withPublic before w between publicId systemId? =>
    rw [identifiers, written, spaced?_append before w between rfl (publicId.dropWhile_append _),
      Option.bind_some, publicId.quoted?_append]
    cases systemId? with
    | none => rfl
    | some systemId =>
      obtain ⟨gap, systemId⟩ := systemId
      have hsystem := systemId.quoted?_append []
      have hgap := gap.blanks?_append (systemId.dropWhile_append [])
      rw [List.append_nil] at hsystem hgap
      simp [publicId?, ExternalId.systemId?, hsystem, hgap]
  | withSystem before w between systemId =>
    have hsystem := systemId.quoted?_append []
    have hspaced := spaced?_append before w between rfl (systemId.dropWhile_append [])
    rw [List.append_nil] at hsystem hspaced
    rw [identifiers, written, spaced?_public_system before w, hspaced, Option.bind_some, hsystem]
    rfl

/-- The name ends where the identifiers begin. -/
theorem written_cases (e : ExternalId) :
    e.written = [] ∨ ∃ c rest, isBlank c ∧ e.written = c :: rest := by
  have hgap (g : Gap) (rest : List Char) : ∃ c rest', isBlank c ∧ g.chars ++ rest = c :: rest' := by
    obtain ⟨chars, hne, hblank⟩ := g
    cases chars with
    | nil => exact absurd rfl hne
    | cons c chars => exact ⟨c, _, hblank c List.mem_cons_self, rfl⟩
  cases e with
  | absent => exact .inl rfl
  | withPublic before => exact .inr (hgap before _)
  | withSystem before => exact .inr (hgap before _)

end ExternalId

namespace Declaration

variable (d : Declaration)

theorem isBlank_of_mem_name {c : Char} (hc : c ∈ d.name) : isBlank c = false := by
  have := d.name_chars c hc
  simp only [Doctype.isNameChar, Bool.and_eq_true, Bool.not_eq_true'] at this
  exact this.1.1

theorem dropWhile_name (rest : List Char) :
    (d.name ++ rest).dropWhile isBlank = d.name ++ rest := by
  cases hname : d.name with
  | nil => exact absurd hname d.name_nonempty
  | cons c name =>
    have hc := d.isBlank_of_mem_name (hname ▸ List.mem_cons_self)
    exact List.dropWhile_cons_of_neg (by rw [hc]; decide)

/-- No keyword is found at the start of the name: it would be the name, or end inside the name, or
reach into the blanks behind it. -/
theorem keyword?_name : (Doctype.keyword? ['d', 'o', 'c', 't', 'y', 'p', 'e']
    (d.name ++ d.ids.written)).bind blanks? = none := by
  rw [Option.bind_eq_none_iff]
  intro t ht
  obtain ⟨a, ha, happend⟩ := keyword?_eq_some_iff.1 ht
  rcases List.append_eq_append_iff.1 happend with ⟨a', hname, hids⟩ | ⟨a', hname, rfl⟩
  · cases a' with
    | nil =>
      rw [List.append_nil] at hname
      exact absurd (hname ▸ ha) d.name_ne_keyword
    | cons c a' =>
      have hblank : isBlank c = false := ha.isBlank_eq_false (by simp [isBlank]) (by simp [hname])
      rcases d.ids.written_cases with hnil | ⟨c', rest, hc', hcons⟩
      · rw [hnil] at hids
        cases hids
      · rw [hcons] at hids
        cases hids
        rw [hblank] at hc'
        cases hc'
  · cases a' with
    | nil =>
      rw [List.append_nil] at hname
      exact absurd (hname ▸ ha) d.name_ne_keyword
    | cons c a' => exact blanks?_cons (d.isBlank_of_mem_name (by simp [hname]))

theorem body_written : body d.written.toList = d.name ++ d.ids.written := by
  rw [written, String.toList_ofList, body, List.dropWhile_append_of_pos d.leading_blank]
  cases d.opening? with
  | none =>
    dsimp only [Option.elim_none]
    rw [List.nil_append, d.dropWhile_name, d.keyword?_name]
    rfl
  | some opening =>
    obtain ⟨w, gap⟩ := opening
    dsimp only [Option.elim_some]
    rw [List.append_assoc, w.dropWhile_append rfl, keyword?_eq_some_iff.2 ⟨w.chars, w.spells, rfl⟩,
      Option.bind_some, gap.blanks?_append (d.dropWhile_name _)]
    rfl

theorem read_written : Doctype.read d.written = d.doctype := by
  have hstop : d.ids.written.takeWhile Doctype.isNameChar = [] ∧
      d.ids.written.dropWhile Doctype.isNameChar = d.ids.written := by
    rcases d.ids.written_cases with hnil | ⟨c, rest, hc, hcons⟩
    · simp [hnil]
    · simp [hcons, Doctype.isNameChar, hc]
  rw [Doctype.read, d.body_written, List.takeWhile_append_of_pos d.name_chars,
    List.dropWhile_append_of_pos d.name_chars, hstop.1, hstop.2, d.ids.identifiers_written,
    List.append_nil]
  rfl

end Declaration

namespace Doctype

open Pattern

section Matching

variable {β : Type} {f : Way Part → Option β} {letter c : Char} {letters s : List Char}

/-- Blanks are taken all or none if what follows fails on a blank, or never fails. -/
theorem search_gap
    (h : ∀ c s, isBlank c → f ([], c :: s) = none ∨ (f ([], s.dropWhile isBlank)).isSome) :
    gap.search f s = (blanks? s).bind fun rest => f ([], rest) := by
  rw [gap, many1, search_seq]
  cases s with
  | nil => rfl
  | cons c s =>
    rw [search_one_cons]
    by_cases hc : isBlank c
    · rw [if_pos hc, blanks?_cons_blank hc]
      exact search_many h
    · rw [Bool.not_eq_true] at hc
      rw [blanks?_cons hc, hc]
      rfl

theorem search_word (a : Pattern Part) :
    (word isLetter letters a).search f s = (keyword? letters s).bind (a.search f) := by
  induction letters generalizing s with
  | nil => rfl
  | cons letter letters ih =>
    rw [word, search_seq]
    cases s with
    | nil => rfl
    | cons c s =>
      rw [search_one_cons, keyword?]
      split
      · exact ih
      · rfl

theorem search_keyword
    (h : ∀ c s, isBlank c → f ([], c :: s) = none ∨ (f ([], s.dropWhile isBlank)).isSome) :
    (keyword letters).search f s =
      ((keyword? letters s).bind blanks?).bind fun rest => f ([], rest) := by
  rw [keyword, search_word, Option.bind_assoc]
  exact congrArg _ (funext fun _ => search_gap h)

theorem search_enclosed (quote : Char) : (enclosed quote).search f (c :: s) =
    if c = quote then (s.dropWhile (· ≠ quote)).tail?.bind fun rest => f ([], rest) else none := by
  rw [enclosed, search_seq, search_one_cons]
  simp only [decide_eq_true_eq]
  split
  · rw [search_seq, search_many]
    · cases hdrop : s.dropWhile (· ≠ quote) with
      | nil => rfl
      | cons d rest =>
        have hquote := dropWhile_eq_of_tail? (congrArg List.tail? hdrop)
        rw [hdrop] at hquote
        cases hquote
        rw [search_one_cons, if_pos (decide_eq_true rfl)]
        rfl
    · intro c s hc
      rw [search_one_cons, if_neg (by simpa using hc)]
      exact .inl rfl
  · rfl

theorem search_quotation :
    quotation.search f s = (quoted? s).bind fun x => f ([], x.2) := by
  rw [quotation, search_either]
  cases s with
  | nil => rfl
  | cons c s =>
    rw [search_enclosed, search_enclosed, quoted?_cons]
    by_cases hdouble : c = '\x22'
    · cases hdouble
      rw [if_pos rfl, if_neg (by decide), if_pos (.inl rfl), Option.or_none, Option.bind_map]
      rfl
    · by_cases hsingle : c = '\x27'
      · cases hsingle
        rw [if_neg hdouble, if_pos rfl, if_pos (.inr rfl), Option.none_or, Option.bind_map]
        rfl
      · rw [if_neg hdouble, if_neg hsingle, if_neg (not_or.2 ⟨hdouble, hsingle⟩)]
        rfl

def quotedGroup? (g : Part) (s : List Char) : Option (Way Part) :=
  (quoted? s).map fun x => ([(g, s.take (s.length - x.2.length))], x.2)

theorem search_group_quotation (g : Part) :
    (group g quotation).search f s = (quotedGroup? g s).bind f := by
  rw [search_group, search_quotation, quotedGroup?, Option.bind_map]
  rfl

theorem quoted?_cons_blank (hc : isBlank c) : quoted? (c :: s) = none := by
  rw [quoted?_cons, if_neg]
  rintro (rfl | rfl) <;> revert hc <;> decide

theorem unquote_of_quoted? {content rest : List Char} (h : quoted? s = some (content, rest)) :
    unquote (some (s.take (s.length - rest.length))) = identifier? content := by
  obtain ⟨q, -, -, rfl⟩ := quoted?_eq_some_iff.1 h
  have hlength : (q :: (content ++ q :: rest)).length - rest.length =
      (q :: (content ++ [q])).length := by
    simp only [List.length_cons, List.length_append, List.length_nil]
    omega
  have hsplit : q :: (content ++ q :: rest) = q :: (content ++ [q]) ++ rest := by simp
  rw [hlength, hsplit, List.take_left, unquote, Option.bind_some, List.drop_one, List.tail_cons,
    List.dropLast_concat]

theorem match?_introduced {a : Pattern Part} (hl : isBlank letter = false)
    (ha : ∀ c s, isBlank c → a.match? (c :: s) = none) :
    (seq gap (seq (keyword (letter :: letters)) a)).match? s =
      (spaced? (letter :: letters) s).bind a.match? := by
  have hkeyword (s : List Char) : (seq (keyword (letter :: letters)) a).match? s =
      ((keyword? (letter :: letters) s).bind blanks?).bind a.match? := by
    rw [match?_seq, search_keyword fun c s hc => .inl (by rw [ha c s hc]; rfl)]
    simp
  rw [match?_seq, search_gap, spaced?, Option.bind_assoc]
  · simp [hkeyword]
  · intro c s hc
    rw [hkeyword, keyword?_cons_blank hl hc]
    exact .inl rfl

theorem match?_group_quotation (g : Part) :
    (group g quotation).match? s = quotedGroup? g s := by
  rw [match?_eq_search, search_group_quotation, Option.bind_fun_some]

theorem quotedGroup?_cons_blank (g : Part) (hc : isBlank c) : quotedGroup? g (c :: s) = none := by
  rw [quotedGroup?, quoted?_cons_blank hc]
  rfl

theorem match?_publicSystem : publicSystem.match? s =
    some (((blanks? s).bind (quotedGroup? .publicSystem)).getD ([], s)) := by
  rw [publicSystem, match?_maybe, match?_seq, search_gap]
  · simp only [match?_group_quotation, List.nil_append, Option.map_id']
    cases (blanks? s).bind (quotedGroup? .publicSystem) <;> rfl
  · intro c s hc
    rw [match?_group_quotation, quotedGroup?_cons_blank _ hc]
    exact .inl rfl

theorem match?_publicIds : publicIds.match? s =
    ((spaced? ['p', 'u', 'b', 'l', 'i', 'c'] s).bind (quotedGroup? .publicId)).bind fun x =>
      (publicSystem.match? x.2).map fun y => (x.1 ++ y.1, y.2) := by
  have hids (s : List Char) : (seq (group .publicId quotation) publicSystem).match? s =
      (quotedGroup? .publicId s).bind fun x =>
        (publicSystem.match? x.2).map fun y => (x.1 ++ y.1, y.2) := by
    rw [match?_seq, search_group_quotation]
  rw [publicIds, match?_introduced rfl, Option.bind_assoc]
  · simp only [hids]
  · intro c s hc
    rw [hids, quotedGroup?_cons_blank _ hc]
    rfl

theorem match?_systemIds : systemIds.match? s =
    (spaced? ['s', 'y', 's', 't', 'e', 'm'] s).bind (quotedGroup? .system) := by
  rw [systemIds, match?_introduced rfl]
  · exact congrArg _ (funext fun s => match?_group_quotation .system)
  · intro c s hc
    rw [match?_group_quotation, quotedGroup?_cons_blank _ hc]

/-- Where a quotation may be looked for, it is found for its group if it is read there. -/
theorem bind_quotedGroup? (g : Part) (o : Option (List Char)) :
    (o.bind quoted? = none ∧ o.bind (quotedGroup? g) = none) ∨
      ∃ content rest taken, o.bind quoted? = some (content, rest) ∧
        o.bind (quotedGroup? g) = some ([(g, taken)], rest) ∧
        unquote (some taken) = identifier? content := by
  cases o with
  | none => exact .inl ⟨rfl, rfl⟩
  | some s =>
    simp only [Option.bind_some, quotedGroup?]
    cases h : quoted? s with
    | none => exact .inl ⟨rfl, rfl⟩
    | some q => exact .inr ⟨q.1, q.2, _, rfl, rfl, unquote_of_quoted? h⟩

theorem exists_match?_ids (s : List Char) : ∃ parts rest, ids.match? s = some (parts, rest) ∧
    parts.lookup .name = none ∧ identifiers s = (unquote (parts.lookup .publicId),
      unquote ((parts.lookup .publicSystem).or (parts.lookup .system))) := by
  rw [ids, match?_maybe, match?_either, match?_publicIds, match?_systemIds, identifiers]
  rcases bind_quotedGroup? .publicId (spaced? ['p', 'u', 'b', 'l', 'i', 'c'] s) with
    ⟨hread, hmatch⟩ | ⟨publicId, rest, takenPublic, hread, hmatch, hpublic⟩
  · rw [hread, hmatch]
    rcases bind_quotedGroup? .system (spaced? ['s', 'y', 's', 't', 'e', 'm'] s) with
      ⟨hread, hmatch⟩ | ⟨systemId, rest, taken, hread, hmatch, hsystem⟩
    · rw [hread, hmatch]
      exact ⟨[], s, rfl, rfl, rfl⟩
    · rw [hread, hmatch]
      exact ⟨[(.system, taken)], rest, rfl, rfl, Prod.ext rfl hsystem.symm⟩
  · rw [hread, hmatch, Option.bind_some, match?_publicSystem]
    dsimp only
    rcases bind_quotedGroup? .publicSystem (blanks? rest) with
      ⟨hread, hmatch⟩ | ⟨systemId, rest', taken, hread, hmatch, hsystem⟩
    · rw [hread, hmatch]
      exact ⟨[(.publicId, takenPublic)], rest, rfl, rfl, Prod.ext hpublic.symm rfl⟩
    · rw [hread, hmatch]
      exact ⟨[(.publicId, takenPublic), (.publicSystem, taken)], rest', rfl, rfl,
        Prod.ext hpublic.symm hsystem.symm⟩

theorem isSome_match?_ids (s : List Char) : (ids.match? s).isSome := by
  obtain ⟨parts, rest, h, -⟩ := exists_match?_ids s
  rw [h]
  rfl

theorem take_dropWhile (p : Char → Bool) (s : List Char) :
    s.take (s.length - (s.dropWhile p).length) = s.takeWhile p := by
  have hs := List.takeWhile_append_dropWhile (p := p) (l := s)
  have hlength := congrArg List.length hs
  rw [List.length_append] at hlength
  rw [← hlength, Nat.add_sub_cancel]
  nth_rewrite 2 [← hs]
  exact List.take_left

theorem exists_match?_named (s : List Char) : ∃ parts rest, named.match? s = some (parts, rest) ∧
    ofParts parts = ⟨String.ofList (s.takeWhile isNameChar),
      (identifiers (s.dropWhile isNameChar)).1, (identifiers (s.dropWhile isNameChar)).2⟩ := by
  obtain ⟨parts, rest, hmatch, hname, hids⟩ := exists_match?_ids (s.dropWhile isNameChar)
  refine ⟨(.name, s.takeWhile isNameChar) :: parts, rest, ?_, ?_⟩
  · rw [named, match?_seq, search_group, search_many]
    · simp [hmatch, take_dropWhile]
    · intro c s _
      simp [isSome_match?_ids]
  · rw [hids]
    rfl

theorem isSome_match?_named (s : List Char) : (named.match? s).isSome := by
  obtain ⟨parts, rest, h, -⟩ := exists_match?_named s
  rw [h]
  rfl

/-- The keyword is passed over wherever it is found, since what follows always matches. -/
theorem match?_opened : opened.match? s =
    named.match? (((keyword? ['d', 'o', 'c', 't', 'y', 'p', 'e'] s).bind blanks?).getD s) := by
  rw [opened, match?_seq, search_maybe,
    search_keyword fun _ _ _ => .inr (by simp [isSome_match?_named])]
  cases (keyword? ['d', 'o', 'c', 't', 'y', 'p', 'e'] s).bind blanks? with
  | none => simp
  | some rest => simp [Option.or_of_isSome (isSome_match?_named rest)]

theorem match?_pattern : pattern.match? s = named.match? (body s) := by
  rw [pattern, match?_seq,
    search_many fun _ _ _ => .inr (by simp [match?_opened, isSome_match?_named])]
  simp [match?_opened, body]

/-- Whatever the text is, the pattern matches, and reading it gives what the groups say. -/
theorem exists_match?_pattern (text : String) : ∃ parts rest,
    pattern.match? text.toList = some (parts, rest) ∧ Doctype.read text = ofParts parts := by
  obtain ⟨parts, rest, hmatch, hparts⟩ := exists_match?_named (body text.toList)
  rw [match?_pattern]
  exact ⟨parts, rest, hmatch, hparts.symm⟩

end Matching

end Doctype

/-- A declaration gives a node with its name, its public and its system identifier. Every text at
all matches the pattern, its groups are what is read of it, and it gives a node. -/
theorem newDoctype_read :
    (∀ (d : Declaration) (next : Ident), Doctype.read d.written = d.doctype ∧
      newDoctype (Doctype.read d.written) next = .ok (⟨next, .doctype, [(.kind, .str "doctype"),
        (.position, .null), (.metadata, .null), (.name, .str (String.ofList d.name)),
        (.publicId, optionalText d.doctype.publicId?),
        (.systemId, optionalText d.doctype.systemId?)]⟩, next + 1)) ∧
    ∀ (text : String) (next : Ident), ∃ parts rest,
      Doctype.pattern.match? text.toList = some (parts, rest) ∧
      Doctype.read text = Doctype.ofParts parts ∧
      ∃ r, newDoctype (Doctype.read text) next = .ok (r, next + 1) := by
  constructor
  · intro d next
    refine ⟨d.read_written, ?_⟩
    rw [d.read_written, newDoctype_eq]
    rfl
  · intro text next
    obtain ⟨parts, rest, hmatch, hread⟩ := Doctype.exists_match?_pattern text
    exact ⟨parts, rest, hmatch, hread, _, newDoctype_eq _ next⟩

/-- A declaration in mixed case and over two lines, of a type whose name is a keyword. The public
identifier holds a blank and a quote, and the system identifier is empty. -/
def mixedDeclaration : Declaration where
  leading := ['\n', ' ']
  leading_blank := by simp [isBlank]
  opening? := some (⟨['d', 'o', 'c', 'T', 'y', 'p', 'e'], by simp [Spells, isLetter]⟩,
    ⟨['\t'], by simp, by simp [isBlank]⟩)
  name := ['S', 'y', 's', 't', 'e', 'm']
  name_nonempty := by simp
  name_chars := by simp [Doctype.isNameChar, isBlank]
  name_ne_keyword := by simp [Spells, isLetter]
  ids := .withPublic ⟨[' '], by simp, by simp [isBlank]⟩
    ⟨['p', 'u', 'b', 'l', 'i', 'C'], by simp [Spells, isLetter]⟩ ⟨['\t'], by simp, by simp [isBlank]⟩
    ⟨'\x27', ['a', ' ', '\x22', 'b'], by simp, by simp⟩
    (some (⟨[' '], by simp, by simp [isBlank]⟩, ⟨'\x22', [], by simp, by simp⟩))

theorem newDoctype_read_mixedDeclaration :
    mixedDeclaration.written = "\n docType\tSystem publiC\t'a \x22b' \x22\x22" ∧
    ∃ r, newDoctype (Doctype.read mixedDeclaration.written) 0 = .ok (r, 1) ∧
      r.get .name = .str "System" ∧ r.get .publicId = .str "a \x22b" ∧ r.get .systemId = .null :=
  ⟨rfl, _, (newDoctype_read.1 mixedDeclaration 0).2, rfl, rfl, rfl⟩

end DocTree.Markup
