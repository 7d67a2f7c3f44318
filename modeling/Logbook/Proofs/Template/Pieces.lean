import Mathlib.Data.List.Basic
import Mathlib.Data.List.Chain
import Logbook.Proofs.Template.Placeholder

/-! A text cut at its placeholders. What a cut is, is said of the text and the pieces alone: every placeholder that
    occurs in the text is a piece of its own, and what lies between them stays in one stretch. A text has one cut.
    Main statement: the tokens of a template are those of the pieces of its text. -/

namespace Logbook
namespace Template

/-! ### Cuts -/

/-- A piece of a text: a stretch that is kept as it is, or a placeholder and its token. -/
inductive Piece where
  | stretch (text : List Char)
  | placeholder (inner : List Char) (token : Token)

namespace Piece

def source : Piece → List Char
  | .stretch text => text
  | .placeholder inner _ => '{' :: (inner ++ ['}'])

def token : Piece → Token
  | .stretch text => .literal (String.ofList text)
  | .placeholder _ token => token

def isStretch : Piece → Bool
  | .stretch _ => true
  | .placeholder _ _ => false

end Piece

/-- The text that was cut into the pieces. -/
def sourceOf (pieces : List Piece) : List Char :=
  pieces.flatMap Piece.source

/-- The placeholder of `inner` follows after `before` in a text. -/
def Follows (text before inner : List Char) : Prop :=
  ∃ after, text = before ++ '{' :: (inner ++ '}' :: after)

def HasPlaceholder (text : List Char) : Prop :=
  ∃ before inner token, Placeholder inner token ∧ Follows text before inner

/-- The pieces are a text cut at every placeholder. Nothing is lost, and the stretches between the placeholders are as
    long as they can be. -/
structure Cut (text : List Char) (pieces : List Piece) : Prop where
  whole : sourceOf pieces = text
  nonempty : ∀ stretch, .stretch stretch ∈ pieces → stretch ≠ []
  apart : pieces.IsChain fun p q => p.isStretch = false ∨ q.isStretch = false
  placeholders : ∀ inner token, .placeholder inner token ∈ pieces → Placeholder inner token
  everywhere : ∀ before inner token, Placeholder inner token → Follows text before inner →
    ∃ front back, pieces = front ++ .placeholder inner token :: back ∧ sourceOf front = before

@[simp] theorem sourceOf_nil : sourceOf [] = [] := rfl

@[simp] theorem sourceOf_cons (p : Piece) (ps : List Piece) : sourceOf (p :: ps) = p.source ++ sourceOf ps :=
  List.flatMap_cons

theorem source_placeholder_append (inner : List Char) (token : Token) (rest : List Char) :
    (Piece.placeholder inner token).source ++ rest = '{' :: (inner ++ '}' :: rest) := by
  simp [Piece.source]

theorem sourceOf_split (front : List Piece) (inner : List Char) (token : Token) (back : List Piece) :
    sourceOf (front ++ .placeholder inner token :: back) =
      sourceOf front ++ '{' :: (inner ++ '}' :: sourceOf back) := by
  rw [sourceOf, List.flatMap_append, List.flatMap_cons, source_placeholder_append]
  rfl

/-! ### A text that grows at its front -/

/-- A placeholder follows at the very front of a text that starts with one, or after that one. -/
theorem follows_placeholder {inner text before other : List Char} {token token' : Token} (h : Placeholder inner token)
    (h' : Placeholder other token') (hfollows : Follows ('{' :: (inner ++ '}' :: text)) before other) :
    before = [] ∧ other = inner ∨
      ∃ later, before = '{' :: (inner ++ '}' :: later) ∧ Follows text later other := by
  obtain ⟨after, hafter⟩ := hfollows
  cases before with
  | nil =>
    have hinner := congrArg (List.takeWhile (· != '}')) (List.cons.inj hafter).2
    rw [takeWhile_inner h.noClose, takeWhile_inner h'.noClose] at hinner
    exact Or.inl ⟨rfl, hinner.symm⟩
  | cons c before =>
    obtain ⟨rfl, hrest⟩ := List.cons.inj hafter
    -- The opening brace of the other placeholder lies behind the closing brace of this one.
    rcases List.append_eq_append_iff.mp hrest with ⟨later, rfl, hlater⟩ | ⟨middle, rfl, hmiddle⟩
    · cases later with
      | nil => cases (List.cons.inj hlater).1
      | cons d later =>
        obtain ⟨rfl, htext⟩ := List.cons.inj hlater
        exact Or.inr ⟨later, rfl, after, htext⟩
    · cases middle with
      | nil => cases (List.cons.inj hmiddle).1
      | cons d middle =>
        obtain ⟨rfl, -⟩ := List.cons.inj hmiddle
        exact absurd (List.mem_append_right _ List.mem_cons_self) h.noOpen

namespace Cut
variable {text : List Char} {p : Piece} {ps qs : List Piece}

theorem nil : Cut [] [] where
  whole := rfl
  nonempty _ h := by cases h
  apart := .nil
  placeholders _ _ h := by cases h
  everywhere before inner token _ h := by
    obtain ⟨after, hafter⟩ := h
    simp at hafter

theorem placeholder (h : Cut text ps) {inner : List Char} {token : Token} (hinner : Placeholder inner token) :
    Cut ('{' :: (inner ++ '}' :: text)) (.placeholder inner token :: ps) where
  whole := by rw [sourceOf_cons, h.whole, source_placeholder_append]
  nonempty stretch hmem := h.nonempty stretch (List.mem_of_ne_of_mem (by simp) hmem)
  apart := h.apart.cons fun _ _ => Or.inl rfl
  placeholders other token' hmem := by
    rcases List.mem_cons.mp hmem with heq | hmem
    · obtain ⟨rfl, rfl⟩ := Piece.placeholder.inj heq
      exact hinner
    · exact h.placeholders other token' hmem
  everywhere before other token' hother hfollows := by
    rcases follows_placeholder hinner hother hfollows with ⟨rfl, rfl⟩ | ⟨later, rfl, hlater⟩
    · rw [hother.token_unique hinner]
      exact ⟨[], ps, rfl, rfl⟩
    · obtain ⟨front, back, rfl, rfl⟩ := h.everywhere later other token' hother hlater
      exact ⟨_ :: front, back, rfl, by rw [sourceOf_cons, source_placeholder_append]⟩

theorem source_ne_nil (h : Cut text ps) (hp : p ∈ ps) : p.source ≠ [] := by
  cases p with
  | stretch s => exact h.nonempty s hp
  | placeholder inner token => exact List.cons_ne_nil _ _

/-- Without its first piece a cut is one of the text that is left. -/
theorem tail (h : Cut text (p :: ps)) : Cut (sourceOf ps) ps where
  whole := rfl
  nonempty stretch hmem := h.nonempty stretch (List.mem_cons_of_mem _ hmem)
  apart := h.apart.tail
  placeholders inner token hmem := h.placeholders inner token (List.mem_cons_of_mem _ hmem)
  everywhere before inner token hinner hfollows := by
    obtain ⟨after, hafter⟩ := hfollows
    have hwhole : Follows text (p.source ++ before) inner :=
      ⟨after, by rw [← h.whole, sourceOf_cons, hafter, List.append_assoc]⟩
    obtain ⟨front, back, hpieces, hfront⟩ := h.everywhere _ inner token hinner hwhole
    cases front with
    | nil =>
      have hnil := (List.append_eq_nil_iff.mp (hfront.symm.trans sourceOf_nil)).1
      exact absurd hnil (h.source_ne_nil List.mem_cons_self)
    | cons q front =>
      obtain ⟨rfl, rfl⟩ := List.cons.inj hpieces
      exact ⟨front, back, rfl, List.append_cancel_left hfront⟩

/-- Behind a stretch in front, a cut goes on as the text does. -/
theorem follows_stretch {s : List Char} (h : Cut text (.stretch s :: ps)) {before inner : List Char} {token : Token}
    (hinner : Placeholder inner token) (hfollows : Follows text before inner) :
    ∃ later, before = s ++ later ∧ Follows (sourceOf ps) later inner := by
  obtain ⟨front, back, hpieces, rfl⟩ := h.everywhere before inner token hinner hfollows
  cases front with
  | nil => cases (List.cons.inj hpieces).1
  | cons q front =>
    obtain ⟨rfl, rfl⟩ := List.cons.inj hpieces
    exact ⟨sourceOf front, rfl, sourceOf back, sourceOf_split front inner token back⟩

/-- A stretch goes in front of a cut that starts with a placeholder, if no placeholder starts in the stretch. -/
theorem stretch {s : List Char} (h : Cut text ps) (hs : s ≠ []) (hhead : ∀ q ∈ ps.head?, q.isStretch = false)
    (hnone : ∀ before inner token, Placeholder inner token → Follows (s ++ text) before inner →
      ∃ later, before = s ++ later ∧ Follows text later inner) : Cut (s ++ text) (.stretch s :: ps) where
  whole := by rw [sourceOf_cons, h.whole]; rfl
  nonempty stretch hmem := by
    rcases List.mem_cons.mp hmem with heq | hmem
    · obtain rfl := Piece.stretch.inj heq
      exact hs
    · exact h.nonempty stretch hmem
  apart := h.apart.cons fun q hq => Or.inr (hhead q hq)
  placeholders inner token hmem := h.placeholders inner token (List.mem_of_ne_of_mem (by simp) hmem)
  everywhere before inner token hinner hfollows := by
    obtain ⟨later, rfl, hlater⟩ := hnone before inner token hinner hfollows
    obtain ⟨front, back, rfl, rfl⟩ := h.everywhere later inner token hinner hlater
    exact ⟨.stretch s :: front, back, rfl, rfl⟩

end Cut

/-- The pieces after one more character was put in front: it belongs to the first stretch, if the pieces start with
    one. -/
def push (c : Char) : List Piece → List Piece
  | .stretch text :: ps => .stretch (c :: text) :: ps
  | ps => .stretch [c] :: ps

theorem push_of_head {ps : List Piece} (h : ∀ p ∈ ps.head?, p.isStretch = false) (c : Char) :
    push c ps = .stretch [c] :: ps := by
  cases ps with
  | nil => rfl
  | cons p ps =>
    cases p with
    | stretch s => cases h _ rfl
    | placeholder inner token => rfl

namespace Cut
variable {text : List Char} {p : Piece} {ps qs : List Piece}

/-- A character that starts no placeholder goes to a stretch. -/
theorem push (h : Cut text ps) {c : Char}
    (hc : ∀ inner token, Placeholder inner token → ¬Follows (c :: text) [] inner) : Cut (c :: text) (push c ps) := by
  have hlater : ∀ before inner token, Placeholder inner token → Follows (c :: text) before inner →
      ∃ later, before = c :: later ∧ Follows text later inner := by
    rintro before inner token hinner ⟨after, hafter⟩
    cases before with
    | nil => exact absurd ⟨after, hafter⟩ (hc inner token hinner)
    | cons d later =>
      obtain ⟨rfl, htext⟩ := List.cons.inj hafter
      exact ⟨later, rfl, after, htext⟩
  by_cases hhead : ∀ p ∈ ps.head?, p.isStretch = false
  · rw [push_of_head hhead]
    exact h.stretch (List.cons_ne_nil c []) hhead hlater
  · obtain ⟨s, others, rfl⟩ : ∃ s others, ps = .stretch s :: others := by
      cases ps with
      | nil => simp at hhead
      | cons p ps =>
        cases p with
        | stretch s => exact ⟨s, ps, rfl⟩
        | placeholder inner token => simp [Piece.isStretch] at hhead
    have hothers : ∀ q ∈ others.head?, q.isStretch = false := fun q hq =>
      ((List.isChain_cons.mp h.apart).1 q hq).resolve_left (by simp [Piece.isStretch])
    have hwhole : c :: text = (c :: s) ++ sourceOf others := by rw [← h.whole]; rfl
    rw [hwhole]
    refine h.tail.stretch (List.cons_ne_nil c s) hothers fun before inner token hinner hfollows => ?_
    rw [← hwhole] at hfollows
    obtain ⟨middle, rfl, hmiddle⟩ := hlater before inner token hinner hfollows
    obtain ⟨later, rfl, hrest⟩ := h.follows_stretch hinner hmiddle
    exact ⟨later, rfl, hrest⟩

/-! ### A text has one cut -/

theorem eq_nil_of_sourceOf (h : Cut text ps) {front back : List Piece} (hps : ps = front ++ back)
    (hfront : sourceOf front = []) : front = [] := by
  cases front with
  | nil => rfl
  | cons q front =>
    rw [sourceOf_cons, List.append_eq_nil_iff] at hfront
    exact absurd hfront.1 (h.source_ne_nil (hps ▸ List.mem_cons_self))

/-- Where one cut starts with a placeholder, every cut does. -/
theorem starts_with_placeholder {inner : List Char} {token : Token} (h : Cut text (.placeholder inner token :: ps))
    (h' : Cut text qs) : ∃ others, qs = .placeholder inner token :: others := by
  have hfollows : Follows text [] inner :=
    ⟨sourceOf ps, by rw [← h.whole, sourceOf_cons, source_placeholder_append, List.nil_append]⟩
  obtain ⟨front, back, hqs, hfront⟩ :=
    h'.everywhere [] inner token (h.placeholders inner token List.mem_cons_self) hfollows
  obtain rfl := h'.eq_nil_of_sourceOf hqs hfront
  exact ⟨back, hqs⟩

/-- A stretch in front reaches to the end or to a placeholder, so no stretch of another cut is longer. -/
theorem length_stretch_le {s t : List Char} (h : Cut text (.stretch s :: ps)) (h' : Cut text (.stretch t :: qs)) :
    t.length ≤ s.length := by
  cases ps with
  | nil =>
    have hlength := congrArg List.length (h.whole.trans h'.whole.symm)
    simp only [sourceOf_cons, sourceOf_nil, Piece.source, List.append_nil, List.length_append] at hlength
    omega
  | cons p ps =>
    cases p with
    | stretch s' => simpa [Piece.isStretch] using (List.isChain_cons_cons.mp h.apart).1
    | placeholder inner token =>
      have hfollows : Follows text s inner :=
        ⟨sourceOf ps, by rw [← h.whole, sourceOf_cons, sourceOf_cons, source_placeholder_append]; rfl⟩
      obtain ⟨later, rfl, -⟩ := h'.follows_stretch (h.placeholders inner token (by simp)) hfollows
      rw [List.length_append]
      exact Nat.le_add_right _ _

theorem unique (h : Cut text ps) (h' : Cut text qs) : ps = qs := by
  induction ps generalizing text qs with
  | nil =>
    obtain rfl := h.whole
    exact (h'.eq_nil_of_sourceOf (List.append_nil qs).symm h'.whole).symm
  | cons p ps ih =>
    cases p with
    | placeholder inner token =>
      obtain ⟨others, rfl⟩ := h.starts_with_placeholder h'
      have hrest : sourceOf ps = sourceOf others := List.append_cancel_left (h.whole.trans h'.whole.symm)
      rw [ih h.tail (hrest ▸ h'.tail)]
    | stretch s =>
      have hs : s ≠ [] := h.nonempty s List.mem_cons_self
      cases qs with
      | nil =>
        have hwhole := h.whole.trans h'.whole.symm
        rw [sourceOf_cons, sourceOf_nil, List.append_eq_nil_iff] at hwhole
        exact absurd hwhole.1 hs
      | cons q others =>
        cases q with
        | placeholder inner token =>
          obtain ⟨ps', heq⟩ := h'.starts_with_placeholder h
          cases heq
        | stretch t =>
          have hlength : s.length = t.length := Nat.le_antisymm (h'.length_stretch_le h) (h.length_stretch_le h')
          have hwhole : s ++ sourceOf ps = t ++ sourceOf others := h.whole.trans h'.whole.symm
          obtain ⟨rfl, hrest⟩ := List.append_inj hwhole hlength
          rw [ih h.tail (hrest ▸ h'.tail)]

/-- No placeholder is left in a stretch. -/
theorem not_hasPlaceholder {s : List Char} (h : Cut text ps) (hs : .stretch s ∈ ps) : ¬HasPlaceholder s := by
  induction ps generalizing text with
  | nil => cases hs
  | cons p ps ih =>
    rcases List.mem_cons.mp hs with rfl | hs
    · rintro ⟨before, inner, token, hinner, after, rfl⟩
      have hfollows : Follows text before inner :=
        ⟨after ++ sourceOf ps, by rw [← h.whole, sourceOf_cons]; simp [Piece.source]⟩
      obtain ⟨later, hbefore, -⟩ := h.follows_stretch hinner hfollows
      have hlength := congrArg List.length hbefore
      simp only [List.length_append, List.length_cons] at hlength
      omega
    · exact ih h.tail hs

theorem stretches_of_not_hasPlaceholder (h : Cut text ps) (hnone : ¬HasPlaceholder text) :
    ∀ p ∈ ps, p.isStretch = true := by
  intro p hp
  cases p with
  | stretch s => rfl
  | placeholder inner token =>
    obtain ⟨front, back, rfl⟩ := List.append_of_mem hp
    have hwhole := h.whole.symm.trans (sourceOf_split front inner token back)
    exact absurd ⟨_, inner, token, h.placeholders inner token hp, _, hwhole⟩ hnone

end Cut

/-! ### Tokens -/

theorem merge_of_field {token : Token} (h : token.field?.isSome = true) (tokens : List Token) :
    Token.merge (token :: tokens) = token :: Token.merge tokens := by
  cases token with
  | literal text => cases h
  | _ => rfl

theorem merge_push {ps : List Piece} {tokens : List Token} {text : List Char} (hcut : Cut text ps)
    (h : ps.map Piece.token = Token.merge tokens) (c : Char) :
    (push c ps).map Piece.token = Token.merge (.literal (String.singleton c) :: tokens) := by
  cases ps with
  | nil =>
    rw [Token.merge, ← h]
    simp [push, Piece.token]
  | cons p ps =>
    cases p with
    | stretch s =>
      rw [Token.merge, ← h]
      simp [push, Piece.token]
    | placeholder inner token =>
      have hfield := (hcut.placeholders inner token List.mem_cons_self).field?_isSome
      rw [Token.merge, ← h]
      cases token with
      | literal text => cases hfield
      | _ => simp [push, Piece.token]

/-- A placeholder that the scanner does not find after an opening brace does not start there. -/
theorem not_follows_of_cut? {rest inner : List Char} {token : Token} (h : Token.cut? rest = none)
    (hinner : Placeholder inner token) : ¬Follows ('{' :: rest) [] inner := by
  rintro ⟨after, hafter⟩
  rw [cut?_eq_some_iff.mpr ⟨inner, (List.cons.inj hafter).2, hinner⟩] at h
  cases h

theorem pieces_of_cut? {rest rest' : List Char} {token : Token} (h : Token.cut? rest = some (token, rest')) :
    Token.pieces ('{' :: rest) = token :: Token.pieces rest' := by
  rw [Token.pieces, if_pos rfl]
  split
  · next token' rest'' h' =>
    rw [h] at h'
    cases h'
    rfl
  · next h' =>
    rw [h] at h'
    cases h'

theorem pieces_of_cut?_eq_none {rest : List Char} (h : Token.cut? rest = none) :
    Token.pieces ('{' :: rest) = .literal (String.singleton '{') :: Token.pieces rest := by
  rw [Token.pieces, if_pos rfl]
  split
  · next token rest' h' =>
    rw [h] at h'
    cases h'
  · rfl

/-- The scanner finds the tokens of a cut. -/
theorem exists_cut (text : List Char) :
    ∃ ps, Cut text ps ∧ ps.map Piece.token = Token.merge (Token.pieces text) := by
  -- The induction follows the scanner: a placeholder, an opening brace that starts none, any other character.
  induction text using Token.pieces.induct with
  | case1 => exact ⟨[], .nil, by rw [Token.pieces]; rfl⟩
  | case2 rest token rest' hcut _ ih =>
    obtain ⟨ps, hps, hmap⟩ := ih
    obtain ⟨inner, rfl, hinner⟩ := cut?_eq_some_iff.mp hcut
    refine ⟨.placeholder inner token :: ps, hps.placeholder hinner, ?_⟩
    rw [pieces_of_cut? hcut, merge_of_field hinner.field?_isSome, ← hmap]
    rfl
  | case3 rest hcut ih =>
    obtain ⟨ps, hps, hmap⟩ := ih
    refine ⟨push '{' ps, hps.push fun inner token hinner => not_follows_of_cut? hcut hinner, ?_⟩
    rw [merge_push hps hmap, pieces_of_cut?_eq_none hcut]
  | case4 c rest hc ih =>
    obtain ⟨ps, hps, hmap⟩ := ih
    have hnot : ∀ inner token, Placeholder inner token → ¬Follows (c :: rest) [] inner := by
      rintro inner token - ⟨after, hafter⟩
      exact hc (List.cons.inj hafter).1
    refine ⟨push c ps, hps.push hnot, ?_⟩
    rw [merge_push hps hmap, Token.pieces, if_neg hc]

theorem tokens_compile_iff {source : String} {tokens : List Token} :
    (compile source).tokens = tokens ↔
      ∃ pieces, Cut (Text.trimEnd source.toList) pieces ∧ tokens = pieces.map Piece.token := by
  obtain ⟨ps, hps, hmap⟩ := exists_cut (Text.trimEnd source.toList)
  constructor
  · rintro rfl
    exact ⟨ps, hps, hmap.symm⟩
  · rintro ⟨qs, hqs, rfl⟩
    rw [← hps.unique hqs]
    exact hmap.symm

/-- Where there are only stretches, the line is the text. -/
theorem join_stretches {ps : List Piece} (h : ∀ p ∈ ps, p.isStretch = true) (c : Context) :
    String.join ((ps.map Piece.token).map (tokenText c)) = String.ofList (sourceOf ps) := by
  induction ps with
  | nil => rfl
  | cons p ps ih =>
    have hrest := ih fun q hq => h q (List.mem_cons_of_mem _ hq)
    cases p with
    | stretch s =>
      rw [List.map_cons, List.map_cons, String.join_cons, hrest, sourceOf_cons, String.ofList_append]
      rfl
    | placeholder inner token => cases h _ List.mem_cons_self

/-- A template is the text without the blanks at its end, cut at every placeholder: the tokens of the template are
    those of the one cut that the text has. Literal tokens are therefore never empty, never neighbours, and hold no
    placeholder, and a text without placeholders is its own line, whatever the message. -/
theorem compile_eq_cut (source : String) :
    (∀ tokens, (compile source).tokens = tokens ↔
      ∃ pieces, Cut (Text.trimEnd source.toList) pieces ∧ tokens = pieces.map Piece.token) ∧
    ((compile source).tokens.IsChain fun a b => a.field?.isSome = true ∨ b.field?.isSome = true) ∧
    (∀ text, .literal text ∈ (compile source).tokens → text ≠ "" ∧ ¬HasPlaceholder text.toList) ∧
    (¬HasPlaceholder (Text.trimEnd source.toList) →
      ∀ c, (compile source).render c = String.ofList (Text.trimEnd source.toList)) := by
  obtain ⟨ps, hps, htokens⟩ := tokens_compile_iff.mp (Eq.refl (compile source).tokens)
  refine ⟨fun tokens => tokens_compile_iff, ?_, fun text htext => ?_, fun hnone c => ?_⟩
  · have hfield : ∀ p ∈ ps, p.isStretch = false → p.token.field?.isSome = true := by
      intro p hp hstretch
      cases p with
      | stretch s => cases hstretch
      | placeholder inner token => exact (hps.placeholders inner token hp).field?_isSome
    rw [htokens, List.isChain_map]
    exact hps.apart.imp_of_mem_imp fun p q hp hq => Or.imp (hfield p hp) (hfield q hq)
  · rw [htokens] at htext
    obtain ⟨p, hp, htoken⟩ := List.mem_map.mp htext
    cases p with
    | stretch s =>
      obtain rfl := Token.literal.inj htoken
      rw [String.toList_ofList]
      exact ⟨fun h => hps.nonempty s hp (by simpa using h), hps.not_hasPlaceholder hp⟩
    | placeholder inner token =>
      have hfield := (hps.placeholders inner token hp).field?_isSome
      rw [show token = .literal text from htoken] at hfield
      cases hfield
  · rw [render, htokens, join_stretches (hps.stretches_of_not_hasPlaceholder hnone), hps.whole]

end Template
end Logbook
