import Shortcodes.Proofs.Html.Rereading.Closing
import Shortcodes.Proofs.Html.Rereading.Pieces

/-!
# Steady states and the pieces of written markup
-/

namespace Shortcodes.Html

namespace Builder

variable {b c : Builder} {a : Arena} {cur e : OpenElement} {stack : List OpenElement} {t : Token}
  {tag : StartTag} {skip : Bool}

/-! ### One token -/

/-- The one rule that a token meets if no rule hands it on. -/
def rule (b : Builder) (t : Token) : Step := if b.isForeign t then b.foreign t else b.byMode t

theorem process_of_rule (h : b.rule t = (c, none)) (fuel : Nat) : process (fuel + 1) b t = c := by
  rw [process, ← rule, h]

/-- Whether a token is no character, and neither a fault nor a document type. -/
def isMarkup : Token → Bool
  | .startTag _ | .endTag _ | .comment _ | .stop => true
  | _ => false

theorem accept_of_rule (ht : isMarkup t = true) (h : rule { b with skipBreak := false } t = (c, none)) :
    b.accept t = c := by
  have hprocess := process_of_rule h (2 * b.stack.length + 23)
  cases t with
  | startTag _ => exact hprocess
  | endTag _ => exact hprocess
  | comment _ => exact hprocess
  | stop => exact hprocess
  | _ => cases ht

theorem accept_char_of_rule {x : Char} (hx : b.skipBreak = true → x ≠ '\n')
    (h : rule { b with skipBreak := false } (.char x) = (c, none)) : b.accept (.char x) = c := by
  have hprocess := process_of_rule h (2 * b.stack.length + 23)
  have hskip : (b.skipBreak && decide (x = '\n')) = false := by
    cases hb : b.skipBreak with
    | false => rfl
    | true => simpa using hx hb
  rw [accept, hskip]
  exact hprocess

/-- The innermost open element alone decides whether the rules of HTML hold. -/
theorem isForeign_of_stack (h : b.stack = cur :: stack) (t : Token) :
    b.isForeign t = isForeign { stack := [cur] } t := by
  rw [isForeign, h]
  rfl

theorem isForeign_of_html (h : b.stack = cur :: stack) (hhtml : cur.space = .html) (t : Token) :
    b.isForeign t = false :=
  (isForeign_of_stack h t).trans (if_pos hhtml)

theorem inBody_char (b : Builder) {x : Char} (hx : x.toNat ≠ 0) :
    b.inBody (.char x) =
      (insertChar (if Token.isSpace x then b.reopenFormatting
        else { b.reopenFormatting with framesetOk := false }) x).done := if_neg hx

theorem inBody_stop (h : b.templateModes = []) : b.inBody .stop = b.done := if_neg (not_not_intro h)

namespace Steady

theorem rule_eq_inBody (h : Steady (cur :: stack) a skip b) (ht : b.isForeign t = false) :
    b.rule t = b.inBody t := by
  rw [rule, ht, if_neg Bool.false_ne_true, byMode, h.mode_eq]

theorem closes_char (h : Steady (cur :: stack) a skip b) {x : Char} (hx : x.toNat ≠ 0) :
    Closes (cur :: stack) (a.appendChar cur.id x) skip (b.rule (.char x)) := by
  have hchar : ∀ {d : Builder}, Steady (cur :: stack) a skip d →
      Steady (cur :: stack) (a.appendChar cur.id x) skip (d.insertChar x) := by
    intro d hd
    rw [hd.insertChar_eq]
    exact hd.with_arena (Arena.grows_appendChar hd.lt_size x)
  cases hforeign : b.isForeign (.char x) with
  | false =>
    rw [h.rule_eq_inBody hforeign, inBody_char b hx, h.reopenFormatting_eq]
    split
    · exact ⟨hchar h, rfl⟩
    · exact ⟨hchar (h.with_framesetOk false), rfl⟩
  | true =>
    rw [rule, hforeign, if_pos rfl, foreign, if_neg hx]
    dsimp only
    split
    · exact ⟨hchar h, rfl⟩
    · exact ⟨hchar (h.with_framesetOk false), rfl⟩

theorem closes_comment (h : Steady (cur :: stack) a skip b) (content : Text) :
    Closes (cur :: stack) (a.sprout cur.id (.comment content)) skip (b.rule (.comment content)) := by
  have hcomment : Steady (cur :: stack) (a.sprout cur.id (.comment content)) skip
      (b.insertComment content) := by
    rw [h.insertComment_eq]
    exact h.with_arena (Arena.grows_sprout h.lt_size _)
  cases hforeign : b.isForeign (.comment content) with
  | false =>
    rw [h.rule_eq_inBody hforeign]
    exact ⟨hcomment, rfl⟩
  | true =>
    rw [rule, hforeign, if_pos rfl]
    exact ⟨hcomment, rfl⟩

/-! ### Texts and comments -/

open Document

/-- A token after which the state is steady again takes the builder there. -/
theorem reads_of_closes {s : Text} {stack' : List OpenElement} {a' : Arena} {skip' : Bool}
    (h : Steady (cur :: stack) a skip b) (ht : isMarkup t = true) (hs : s ≠ [])
    (hnext : ∀ foreign rest, Token.nextData foreign (s ++ rest) = ([t], rest))
    (hrule : Closes stack' a' skip' (rule { b with skipBreak := false } t)) :
    ∃ c, Reads false b s c ∧ Steady stack' a' skip' c := by
  obtain ⟨hsteady, hdone⟩ := hrule
  have hpair : rule { b with skipBreak := false } t =
      ((rule { b with skipBreak := false } t).1, none) := Prod.ext rfl hdone
  refine ⟨b.accept t, reads_of_nextData h.lexing_eq hs fun rest => hnext _ rest, ?_⟩
  rw [accept_of_rule ht hpair]
  exact hsteady

theorem reads_comment (h : Steady (cur :: stack) a skip b) {content : Text}
    (hcontent : Token.isLegibleComment content = true) :
    ∃ c, Reads false b ("<!--".toList ++ content ++ "-->".toList) c ∧
      Steady (cur :: stack) (a.sprout cur.id (.comment content)) false c :=
  h.reads_of_closes rfl (by simp) (Token.nextData_comment hcontent)
    ((h.with_skipBreak false).closes_comment content)

theorem reads_char (h : Steady (cur :: stack) a skip b) {x : Char} (hx : x.toNat ≠ 0)
    (hbreak : skip = true → x ≠ '\n') :
    ∃ c, Reads false b (escapedInText x) c ∧
      Steady (cur :: stack) (a.appendChar cur.id x) false c := by
  obtain ⟨hsteady, hdone⟩ := (h.with_skipBreak false).closes_char hx
  have hpair : rule { b with skipBreak := false } (.char x) =
      ((rule { b with skipBreak := false } (.char x)).1, none) := Prod.ext rfl hdone
  have hcoded := codesAll_escapedInText x
  have hbracket : '<' ∉ escapedInText x := by
    have hnot := codesAll_escapedInText.not_mem (d := '<') (by decide) (by decide) [x]
    rwa [List.flatMap_singleton] at hnot
  refine ⟨b.accept (.char x), reads_of_nextData h.lexing_eq
    (List.length_pos_iff.1 hcoded.length_pos) fun rest => nextData_coded hcoded hbracket _ rest, ?_⟩
  rw [accept_char_of_rule (by rwa [h.skipBreak_eq]) hpair]
  exact hsteady

/-- A text that comes back joins the innermost open element. -/
theorem reads_text (h : Steady (cur :: stack) a skip b) {s : Text} (hs : Faithful s) (hne : s ≠ [])
    (hbreak : skip = true → s.head? ≠ some '\n') :
    ∃ c, Reads false b (s.flatMap escapedInText) c ∧
      Steady (cur :: stack) (s.foldl (fun a x => a.appendChar cur.id x) a) false c := by
  induction s generalizing a skip b with
  | nil => exact absurd rfl hne
  | cons x s ih =>
    have hx : x.toNat ≠ 0 := fun h0 => hs.2 (by
      rw [show '\x00' = x from (Char.toNat_inj.1 h0).symm]
      exact List.mem_cons_self)
    have hrest : Faithful s :=
      ⟨fun hm => hs.1 (List.mem_cons_of_mem x hm), fun hm => hs.2 (List.mem_cons_of_mem x hm)⟩
    obtain ⟨c, hread, hc⟩ := h.reads_char hx fun hskip he => hbreak hskip (by rw [he]; rfl)
    cases s with
    | nil =>
      rw [List.flatMap_singleton]
      exact ⟨c, hread, hc⟩
    | cons y s =>
      obtain ⟨d, hread', hd⟩ := ih hc hrest (List.cons_ne_nil y s)
        fun hskip => absurd hskip Bool.false_ne_true
      rw [List.flatMap_cons]
      exact ⟨d, hread.trans hread', hd⟩

/-! ### Tags -/

theorem isForeign_eq (h : Steady (cur :: stack) a skip b) (t : Token) :
    b.isForeign t = isForeign { stack := [cur] } t :=
  isForeign_of_stack h.stack_eq t

variable {label : Label}

theorem name_sourceTag (h : htmlLabel label.sourceTag = label) : label.sourceTag.name = label.name :=
  congrArg Label.name h

/-- A start tag takes a steady state where its rule in the body takes it. -/
theorem reads_startTag {stack' : List OpenElement} {a' : Arena} {skip' : Bool}
    (h : Steady (cur :: stack) a skip b) (hlegible : label.isLegible = true)
    (hforeign : isForeign { stack := [cur] } (.startTag label.sourceTag) = false)
    (hbody : Steady stack' a' skip' (bodyStart { b with skipBreak := false } label.sourceTag).1) :
    ∃ c, Reads false b label.openingTag c ∧ Steady stack' a' skip' c := by
  have hsteady := h.with_skipBreak false
  have hrule := hsteady.rule_eq_inBody ((hsteady.isForeign_eq _).trans hforeign)
  refine h.reads_of_closes rfl (by simp [Label.openingTag]) (Label.nextData_openingTag hlegible) ?_
  rw [hrule]
  exact ⟨hbody, bodyStart_snd _ _⟩

theorem reads_openingTag (h : Steady (cur :: stack) a skip b) (hlegible : label.isLegible = true)
    (hlabel : htmlLabel label.sourceTag = label) (hname : label.name ∉ irregular)
    (hadmits : admits (cur :: stack) label.name = true)
    (hforeign : isForeign { stack := [cur] } (.startTag label.sourceTag) = false) :
    ∃ c, Reads false b label.openingTag c ∧
      Steady (opening a.size label :: cur :: stack) (a.sprout cur.id (.element label none))
        (breaking.contains label.name) c := by
  rw [← name_sourceTag hlabel] at hname hadmits ⊢
  have hopens := (h.with_skipBreak false).bodyStart_opens hname hadmits
  rw [Opened, hlabel] at hopens
  exact h.reads_startTag hlegible hforeign hopens

theorem reads_voidTag (h : Steady (cur :: stack) a skip b) (hlegible : label.isLegible = true)
    (hlabel : htmlLabel label.sourceTag = label) (hname : label.name ∈ closedAtOnce)
    (hadmits : admits (cur :: stack) label.name = true)
    (hforeign : isForeign { stack := [cur] } (.startTag label.sourceTag) = false) :
    ∃ c, Reads false b label.openingTag c ∧
      Steady (cur :: stack) (a.sprout cur.id (.element label none)) false c := by
  rw [← name_sourceTag hlabel] at hname hadmits
  have hadds := (h.with_skipBreak false).bodyStart_adds hname hadmits
  rw [hlabel] at hadds
  exact h.reads_startTag hlegible hforeign hadds

theorem reads_closingTag (h : Steady (e :: stack) a skip b) (he : e.isHtml label.name = true)
    (hlegible : label.isLegible = true) (hlabel : htmlLabel label.sourceTag = label)
    (hname : label.name ∉ irregular) (hadmits : admits stack label.name = true) :
    ∃ c, Reads false b label.closingTag c ∧ Steady stack a false c := by
  have hsteady := h.with_skipBreak false
  have hhtml : e.space = .html := by
    rw [OpenElement.isHtml, Bool.and_eq_true, decide_eq_true_eq] at he
    exact he.1
  have hrule := hsteady.rule_eq_inBody
    (isForeign_of_html hsteady.stack_eq hhtml (.endTag label.sourceTag.name))
  refine h.reads_of_closes rfl (by simp [Label.closingTag]) (Label.nextData_closingTag hlegible) ?_
  rw [hrule, name_sourceTag hlabel]
  exact hsteady.bodyEnd_closes he hname hadmits

end Steady

end Builder

end Shortcodes.Html
