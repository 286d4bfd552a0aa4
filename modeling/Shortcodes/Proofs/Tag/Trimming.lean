import Shortcodes.Proofs.Tag.Joining
import Shortcodes.Proofs.Word.Joining
import Shortcodes.Tag.Given

/-!
# Blanks at the ends of arguments

The arguments of a tag are the text between its name and its closing mark (`argumentSource`)
without the blanks at the ends of that text. What is dropped is settled before any quotation mark
is read, and yet it makes one difference only. Where a backslash stands in front of the last blanks
and would guard the first of them (`Word.GuardsBlank`), it is left alone at the end and a fault.
Any other text has the words that it has without the blanks, and also the same fault
(`Word.readAll_eq_trim`). So the words of a tag are those of the text as it stands, or else the
tag ends with a guarded blank (`given_of_mem_scan`).
-/

namespace Shortcodes

namespace Word

/-- The text ends with blanks, and a backslash in front of them guards the first one. -/
def GuardsBlank (t : Text) : Prop :=
  ∃ front words blank blanks, t = front ++ '\\' :: blank :: blanks ∧
    readAll front = .ok words ∧ ∀ c ∈ blank :: blanks, isBlank c = true

/-- A guarded blank is a letter, and the blanks behind it are no more than that. -/
theorem GuardsBlank.exists_words {t : Text} (h : GuardsBlank t) :
    ∃ words, readAll t = .ok words := by
  obtain ⟨front, words, blank, blanks, rfl, hfront, hblanks⟩ := h
  obtain ⟨row, hrow, -⟩ := exists_spells_of_readAll hfront
  have hguarded := readAll_of_spells (hrow.append (Atom.spells_escaped blank))
  have hsplit : front ++ '\\' :: blank :: blanks = front ++ ['\\', blank] ++ blanks := by simp
  rw [hsplit]
  exact ⟨_, readAll_append_blanks hguarded fun c hc => hblanks c (List.mem_cons_of_mem _ hc)⟩

/-- Without the blanks at its ends the text ends with the backslash, which is then alone. -/
theorem GuardsBlank.readAll_trim {t : Text} (h : GuardsBlank t) :
    readAll (Text.trim t) = .error .trailingBackslash := by
  obtain ⟨front, words, blank, blanks, rfl, hfront, hblanks⟩ := h
  have htrim : Text.trim (front ++ '\\' :: blank :: blanks) = Text.trimStart front ++ ['\\'] := by
    have hstart : Text.trimStart (front ++ '\\' :: blank :: blanks) =
        Text.trimStart front ++ ['\\'] ++ blank :: blanks := by
      rw [Text.trimStart_append_cons (by decide), List.append_assoc, List.singleton_append]
    rw [Text.trim, hstart]
    apply Text.trimEnd_append_blanks hblanks
    simp only [List.getLast?_append, List.getLast?_singleton, Option.some_or, Option.mem_def,
      Option.some.injEq, forall_eq']
    decide
  -- the blanks in front of what can be read do not matter either
  have hread : readAll (Text.trimStart front) = .ok words := by
    have hsplit : front = front.takeWhile isBlank ++ Text.trimStart front :=
      List.takeWhile_append_dropWhile.symm
    rw [hsplit, readAll_blanks_append fun c hc => List.mem_takeWhile_imp hc] at hfront
    exact Except.mapError_eq_ok_iff.1 hfront
  rw [htrim]
  exact readAll_backslash hread

/-- Unless it ends with a guarded blank, a text has the words that it has without the blanks at its
ends, or the same fault, which then stands behind the blanks at its start. -/
theorem readAll_eq_trim {t : Text} (h : ¬ GuardsBlank t) :
    readAll t = (readAll (Text.trim t)).mapError
      (WordFault.shift (Text.byteLength (t.takeWhile isBlank))) := by
  obtain ⟨blanks, hblanks, ht⟩ := Text.exists_append_trim t
  have hlead : ∀ c ∈ t.takeWhile isBlank, isBlank c = true :=
    fun c hc => List.mem_takeWhile_imp hc
  have hend : readAll (Text.trim t ++ blanks) = readAll (Text.trim t) := by
    -- the shape of the trimmed text says what blanks behind it are
    rcases readAll_cases (Text.trim t) with
      ⟨words, hok⟩ | ⟨front, words, hfront, hok⟩ | ⟨mark, front, rest, words, hfront, hok, hopen⟩
    · rw [hok, readAll_append_blanks hok hblanks]
    · cases blanks with
      | nil => rw [List.append_nil]
      | cons blank blanks =>
        have hguards : GuardsBlank t := by
          refine ⟨t.takeWhile isBlank ++ front, words, blank, blanks, ?_, ?_, hblanks⟩
          · conv_lhs => rw [ht, hfront]
            simp only [List.append_assoc, List.singleton_append]
          · rw [readAll_blanks_append hlead, hok]
            rfl
        exact absurd hguards h
    · rw [hfront, List.append_assoc, List.cons_append,
        readAll_quotation hok (hopen.append_blanks hblanks), readAll_quotation hok hopen]
  conv_lhs => rw [ht, readAll_blanks_append hlead, hend]

end Word

namespace Tag

/-- The text between the name of a tag and its closing mark, with the blanks at its ends. -/
def argumentSource (tag : Tag) : Text :=
  ((Text.trimStart (tag.source.drop 2)).drop tag.name.length).dropLast.dropLast

/-- The name of a tag ends at the first blank, and all behind it up to the closing mark are the
arguments. -/
theorem argumentSource_spelled {blanks : Text} {c : Char} (hb : ∀ d ∈ blanks, isBlank d = true)
    (hc : isBlank c = false) (body : Text) :
    (spelled blanks c body).argumentSource = body.dropWhile fun d => !isBlank d := by
  have hsource : (spelled blanks c body).source.drop 2 = blanks ++ c :: (body ++ Word.closer) := by
    simp [spelled, opener]
  have hbody : body ++ Word.closer = body.takeWhile (fun d => !isBlank d) ++
      (body.dropWhile (fun d => !isBlank d) ++ Word.closer) := by
    rw [← List.append_assoc, List.takeWhile_append_dropWhile]
  have hbehind : (c :: (body ++ Word.closer)).drop (spelled blanks c body).name.length =
      body.dropWhile (fun d => !isBlank d) ++ ['%'] ++ [']'] := by
    rw [spelled, List.length_cons, List.drop_succ_cons, hbody, List.drop_left, List.append_assoc]
    rfl
  have hstart : Text.trimStart (blanks ++ c :: (body ++ Word.closer)) = c :: (body ++ Word.closer) :=
    Text.trimStart_blanks_append hb (by simpa using hc)
  rw [argumentSource, hsource, hstart, hbehind, List.dropLast_concat, List.dropLast_concat]

theorem tag_mem_of_mem_placedFrom {offset : Nat} {ps : List Piece} {p : Placed}
    (h : p ∈ placedFrom offset ps) : .tag p.tag ∈ ps := by
  induction ps generalizing offset with
  | nil => cases h
  | cons q ps ih =>
    cases q with
    | plain c => exact List.mem_cons_of_mem _ (ih h)
    | tag t =>
      rcases List.mem_cons.1 h with rfl | h
      · exact List.mem_cons_self
      · exact List.mem_cons_of_mem _ (ih h)

/-- The parts of a tag that is found in a text. -/
theorem exists_spelled_of_mem_scan {t : Text} {p : Placed} (h : p ∈ scan t) :
    ∃ blanks, (∀ c ∈ blanks, isBlank c = true) ∧
      p.tag.source = opener ++ blanks ++ p.tag.name ++ p.tag.argumentSource ++ Word.closer ∧
      p.tag.arguments = Text.trim p.tag.argumentSource := by
  obtain ⟨front, rest, tail, -, hread⟩ :=
    exists_read?_of_mem_sweep (tag_mem_of_mem_placedFrom h)
  obtain ⟨blanks, c, body, -, hspelled, hb, hc, -, -⟩ := read?_eq_some_iff.1 hread
  have harguments := argumentSource_spelled hb hc body
  refine ⟨blanks, hb, ?_, ?_⟩
  · rw [hspelled, harguments]
    simp [spelled]
  · rw [hspelled, harguments]
    rfl

/-- What a tag gives are the words of the text between its name and its closing mark, blanks and
all, and it gives nothing exactly if that text has no words. Only where that text ends with a
guarded blank it has words, and the tag gives none: the blank is dropped, and the backslash in
front of it is a lone one. -/
theorem given_of_mem_scan {t : Text} {p : Placed} (h : p ∈ scan t) :
    (∃ blanks, (∀ c ∈ blanks, isBlank c = true) ∧
        p.tag.source = opener ++ blanks ++ p.tag.name ++ p.tag.argumentSource ++ Word.closer) ∧
      (¬ Word.GuardsBlank p.tag.argumentSource →
        ((∃ given, p.tag.given = .ok given) ↔
            ∃ words, Word.readAll p.tag.argumentSource = .ok words) ∧
          ∀ words, Word.readAll p.tag.argumentSource = .ok words →
            p.tag.given = .ok (Given.ofWords words)) ∧
      (Word.GuardsBlank p.tag.argumentSource →
        p.tag.given = .error .trailingBackslash ∧
          ∃ words, Word.readAll p.tag.argumentSource = .ok words) := by
  obtain ⟨blanks, hb, hsource, harguments⟩ := exists_spelled_of_mem_scan h
  refine ⟨⟨blanks, hb, hsource⟩, fun hguards => ?_, fun hguards => ⟨?_, hguards.exists_words⟩⟩
  · rw [Tag.given, Given.ofText, harguments, Word.readAll_eq_trim hguards]
    cases Word.readAll (Text.trim p.tag.argumentSource) with
    | error fault => simp [Except.map, Except.mapError]
    | ok words => simp [Except.map, Except.mapError]
  · rw [Tag.given, Given.ofText, harguments, hguards.readAll_trim]
    rfl

/-- Blanks between quotation marks are kept, a guarded letter and another quotation mark stand
behind them, and the blanks behind that are dropped. -/
theorem given_of_mem_scan_quoted :
    let tag : Tag := ⟨['m'], "'a ' \\é\"\"".toList, "[%m\t'a ' \\é\"\" \u3000%]".toList⟩
    (⟨tag, 2⟩ : Placed) ∈ scan ("é".toList ++ tag.source) ∧
      tag.argumentSource = "\t'a ' \\é\"\" \u3000".toList ∧
      ¬ Word.GuardsBlank tag.argumentSource ∧
      (∃ words, Word.readAll tag.argumentSource = .ok words) ∧
      tag.given = .ok ⟨["a ".toList, ['é']], []⟩ := by
  intro tag
  have hmem : (⟨tag, 2⟩ : Placed) ∈ scan ("é".toList ++ tag.source) := by decide
  have hgiven : tag.given = .ok ⟨["a ".toList, ['é']], []⟩ := by decide
  obtain ⟨-, hsame, hfault⟩ := given_of_mem_scan hmem
  have hguards : ¬ Word.GuardsBlank tag.argumentSource := by
    intro hguards
    have herror : tag.given = .error .trailingBackslash := (hfault hguards).1
    rw [hgiven] at herror
    cases herror
  exact ⟨hmem, by decide, hguards, (hsame hguards).1.1 ⟨_, hgiven⟩, hgiven⟩

/-- A backslash in front of the last blank makes a difference. -/
theorem not_given_of_guarded :
    ¬ ∀ (t : Text) (p : Placed), p ∈ scan t →
      ((∃ given, p.tag.given = .ok given) ↔
          ∃ words, Word.readAll p.tag.argumentSource = .ok words) ∧
        ∀ words, Word.readAll p.tag.argumentSource = .ok words →
          p.tag.given = .ok (Given.ofWords words) := by
  intro h
  let tag : Tag := ⟨['m'], "a\\".toList, "[%m a\\ %]".toList⟩
  have hmem : (⟨tag, 0⟩ : Placed) ∈ scan tag.source := by decide
  have hread : Word.readAll tag.argumentSource = .ok [.plain ['a', ' ']] := by decide
  have hgiven : tag.given = .error .trailingBackslash := by decide
  have hok : tag.given = .ok _ := (h _ _ hmem).2 _ hread
  rw [hgiven] at hok
  cases hok

end Tag

end Shortcodes
