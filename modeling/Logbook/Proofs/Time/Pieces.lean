import Mathlib.Data.List.TakeWhile
import Logbook.Time.Format

/-! What a specification shows, piece by piece. Every piece but a letter stands for itself, and a percent sign before a
    run of letters keeps the letters of other pieces away from it. Main statement: a text that is put together from
    pieces shows what the pieces show, in order. -/

namespace Logbook
namespace DateFormat
open DatePart

/-- The letters that ask for a part of a date or of a time. -/
def letters : List Char :=
  ['y', 'M', 'd', 'H', 'h', 'm', 's', 'f', 'F', 't', 'z', 'g']

/-- The characters that are read in another way than as letters or as they are. -/
def marks : List Char :=
  ['\'', '"', '\\', '%', 'K']

/-- The length from which on a run of a letter means the same. -/
def longest : Char → Nat
  | 'y' => 5
  | 'M' => 4
  | 'd' => 4
  | 'f' => 7
  | 'F' => 7
  | 'z' => 3
  | 'g' => 1
  | _ => 2

theorem ofRun?_eq_none_iff {c : Char} {n : Nat} : ofRun? c n = none ↔ c ∉ letters := by
  unfold ofRun?
  split <;> simp_all [letters]

theorem exists_ofRun? {c : Char} (h : c ∈ letters) (n : Nat) : ∃ part, ofRun? c n = some part :=
  Option.ne_none_iff_exists'.mp fun hnone => ofRun?_eq_none_iff.mp hnone h

theorem ofRun?_of_longest_le {c : Char} (h : c ∈ letters) {n : Nat} (hn : longest c ≤ n) :
    ofRun? c n = ofRun? c (longest c) := by
  simp only [letters, List.mem_cons, List.not_mem_nil, or_false] at h
  rcases h with rfl | rfl | rfl | rfl | rfl | rfl | rfl | rfl | rfl | rfl | rfl | rfl <;>
    simp_all [ofRun?, longest]

/-! ### Pieces -/

/-- A piece of a specification. -/
inductive Piece where
  | escaped (c : Char)
  | quoted (mark : Char) (text : List Char) (isQuote : mark = '\'' ∨ mark = '"') (closed : mark ∉ text)
  | run (letter : Char) (count : Nat) (asks : letter ∈ letters)
  | zone
  | plain (c : Char) (unmarked : c ∉ marks) (idle : c ∉ letters)

namespace Piece

def written : Piece → List Char
  | .escaped c => ['\\', c]
  | .quoted mark text _ _ => mark :: (text ++ [mark])
  | .run letter count _ => '%' :: List.replicate count letter
  | .zone => ['K']
  | .plain c _ _ => [c]

/-- What a piece stands for: its own text, or what the piece shows where it is the whole specification. -/
def shown (t : Instant) : Piece → List Char
  | .escaped c => [c]
  | .quoted _ text _ _ => text
  | .run letter count _ => ((ofSpec (String.ofList ('%' :: List.replicate count letter))).format t).toList
  | .zone => ((ofSpec "K").format t).toList
  | .plain c _ _ => [c]

end Piece

/-! ### Reading the front of a pattern -/

section
variable (rest : List Char)

theorem pieces_nil : pieces [] = [] := by
  rw [pieces]

theorem pieces_escaped (c : Char) : pieces ('\\' :: c :: rest) = .literal (String.singleton c) :: pieces rest := by
  rw [pieces]
  simp

theorem pieces_quoted {mark : Char} {text : List Char} (hmark : mark = '\'' ∨ mark = '"') (hclosed : mark ∉ text) :
    pieces (mark :: (text ++ mark :: rest)) = .literal (String.ofList text) :: pieces rest := by
  have htext : ∀ c ∈ text, (c != mark) = true := by
    intro c hc
    simpa using fun h : c = mark => hclosed (h ▸ hc)
  have htake : (text ++ mark :: rest).takeWhile (· != mark) = text := by
    rw [List.takeWhile_append_of_pos htext, List.takeWhile_cons_of_neg (by simp), List.append_nil]
  have hdrop : (text ++ mark :: rest).dropWhile (· != mark) = mark :: rest := by
    rw [List.dropWhile_append_of_pos htext, List.dropWhile_cons_of_neg (by simp)]
  rw [pieces.eq_def]
  dsimp only
  rw [if_pos (by simpa using hmark), htake, hdrop, List.drop_one, List.tail_cons]

theorem pieces_percent : pieces ('%' :: rest) = pieces rest := by
  rw [pieces.eq_def]
  simp

theorem pieces_zone : pieces ('K' :: rest) = .zone :: pieces rest := by
  rw [pieces.eq_def]
  simp

theorem pieces_plain {c : Char} (hmarks : c ∉ marks) (hletters : c ∉ letters) :
    pieces (c :: rest) = .literal (String.singleton c) :: pieces rest := by
  simp only [marks, List.mem_cons, List.not_mem_nil, or_false, not_or] at hmarks
  rw [pieces.eq_def]
  simp [hmarks, ofRun?_eq_none_iff.mpr hletters]

theorem not_mem_marks_of_mem_letters {c : Char} (h : c ∈ letters) : c ∉ marks := by
  have hnone : letters.all (fun d => !marks.contains d) = true := by decide
  simpa using List.all_eq_true.mp hnone c h

/-- A run is read to its end, which is where another character follows. -/
theorem pieces_run {c : Char} {n : Nat} {part : DatePart} (hpart : ofRun? c (n + 1) = some part)
    (hstop : rest.head? ≠ some c) : pieces ('%' :: (List.replicate (n + 1) c ++ rest)) = part :: pieces rest := by
  have hletter : c ∈ letters := by
    by_contra h
    rw [ofRun?_eq_none_iff.mpr h] at hpart
    cases hpart
  have hmarks := not_mem_marks_of_mem_letters hletter
  simp only [marks, List.mem_cons, List.not_mem_nil, or_false, not_or] at hmarks
  have hrun : ∀ d ∈ List.replicate n c, (d == c) = true := fun d hd => by simp [List.eq_of_mem_replicate hd]
  have hnone : rest.takeWhile (· == c) = [] ∧ rest.dropWhile (· == c) = rest := by
    cases rest with
    | nil => exact ⟨rfl, rfl⟩
    | cons d rest =>
      have hd : (d == c) = false := by simpa using hstop
      exact ⟨List.takeWhile_cons_of_neg (by simp [hd]), List.dropWhile_cons_of_neg (by simp [hd])⟩
  have htake : (List.replicate n c ++ rest).takeWhile (· == c) = List.replicate n c := by
    rw [List.takeWhile_append_of_pos hrun, hnone.1, List.append_nil]
  have hdrop : (List.replicate n c ++ rest).dropWhile (· == c) = rest := by
    rw [List.dropWhile_append_of_pos hrun, hnone.2]
  rw [pieces_percent, List.replicate_succ, List.cons_append, pieces.eq_def]
  simp [hmarks, htake, hdrop, hpart]

theorem pieces_run_alone {c : Char} {n : Nat} {part : DatePart} (hpart : ofRun? c (n + 1) = some part) :
    pieces ('%' :: List.replicate (n + 1) c) = [part] := by
  have halone := pieces_run [] hpart (by simp)
  rwa [List.append_nil, pieces_nil] at halone

end

/-! ### Pieces one after the other -/

theorem head?_written (p : Piece) (rest : List Char) : ∃ c, (p.written ++ rest).head? = some c ∧ c ∉ letters := by
  cases p with
  | escaped c => exact ⟨_, rfl, by decide⟩
  | quoted mark text isQuote closed =>
    refine ⟨mark, rfl, ?_⟩
    rcases isQuote with rfl | rfl <;> decide
  | run letter count asks => exact ⟨_, rfl, by decide⟩
  | zone => exact ⟨_, rfl, by decide⟩
  | plain c unmarked idle => exact ⟨c, rfl, idle⟩

/-- What is read of a piece does not depend on what follows, unless that goes on with a letter. -/
theorem pieces_written_append (p : Piece) {rest : List Char} (hrest : ∀ c, rest.head? = some c → c ∉ letters) :
    pieces (p.written ++ rest) = pieces p.written ++ pieces rest := by
  cases p with
  | escaped c => simp [Piece.written, pieces_escaped, pieces_nil]
  | quoted mark text isQuote closed =>
    have hread := fun rest => pieces_quoted rest isQuote closed
    simp [Piece.written, hread, pieces_nil]
  | run letter count asks =>
    cases count with
    | zero => simp [Piece.written, pieces_percent, pieces_nil]
    | succ n =>
      obtain ⟨part, hpart⟩ := exists_ofRun? asks (n + 1)
      have hstop : rest.head? ≠ some letter := fun h => hrest letter h asks
      rw [Piece.written, List.cons_append, pieces_run rest hpart hstop, pieces_run_alone hpart, List.singleton_append]
  | zone => simp [Piece.written, pieces_zone, pieces_nil]
  | plain c unmarked idle => simp [Piece.written, pieces_plain _ unmarked idle, pieces_nil]

theorem pieces_flatMap_written (ps : List Piece) :
    pieces (ps.flatMap Piece.written) = ps.flatMap fun p => pieces p.written := by
  induction ps with
  | nil => exact pieces_nil
  | cons p ps ih =>
    -- No piece starts with a letter: a run of letters has a percent sign in front.
    have hrest : ∀ c, (ps.flatMap Piece.written).head? = some c → c ∉ letters := by
      intro c hc
      cases ps with
      | nil => cases hc
      | cons q qs =>
        obtain ⟨d, hd, hidle⟩ := head?_written q (qs.flatMap Piece.written)
        rw [List.flatMap_cons, hd] at hc
        exact Option.some.inj hc ▸ hidle
    rw [List.flatMap_cons, List.flatMap_cons, pieces_written_append p hrest, ih]

/-! ### What is shown -/

/-- Putting neighbouring literals together changes nothing of what is shown. -/
theorem render_merge (t : Instant) (parts : List DatePart) :
    (merge parts).flatMap (render t) = parts.flatMap (render t) := by
  induction parts with
  | nil => rfl
  | cons part parts ih =>
    cases part with
    | literal text =>
      rw [merge, List.flatMap_cons, ← ih]
      split
      · next more rest h =>
        rw [h]
        simp [render]
      · rfl
    | _ => rw [merge, List.flatMap_cons, List.flatMap_cons, ih]; simp

/-- A specification that is not a standard one shows the parts of its own text. -/
theorem format_ofSpec {cs : List Char} (h : ∀ c, cs = [c] → standard? c = none) (t : Instant) :
    ((ofSpec (String.ofList cs)).format t).toList = (pieces cs).flatMap (render t) := by
  have hpattern : pattern (String.ofList cs) = (cs, false) := by
    unfold pattern
    rw [String.toList_ofList]
    split
    · next c => rw [h c rfl]
    · rfl
  rw [format, ofSpec, hpattern]
  simp [render_merge]

theorem format_written_run (c : Char) (n : Nat) (t : Instant) :
    ((ofSpec (String.ofList ('%' :: List.replicate n c))).format t).toList =
      (pieces ('%' :: List.replicate n c)).flatMap (render t) := by
  apply format_ofSpec
  intro d hd
  rw [← (List.cons.inj hd).1]
  rfl

theorem render_pieces_written (t : Instant) (p : Piece) : (pieces p.written).flatMap (render t) = p.shown t := by
  cases p with
  | escaped c =>
    rw [Piece.written, pieces_escaped, pieces_nil]
    simp [render, Piece.shown]
  | quoted mark text isQuote closed =>
    rw [Piece.written, pieces_quoted [] isQuote closed, pieces_nil]
    simp [render, Piece.shown]
  | run letter count asks => exact (format_written_run letter count t).symm
  | zone => exact (@format_ofSpec ['K'] (fun c hc => by rw [← (List.cons.inj hc).1]; rfl) t).symm
  | plain c unmarked idle =>
    rw [Piece.written, pieces_plain [] unmarked idle, pieces_nil]
    simp [render, Piece.shown]

theorem longest_pos (c : Char) : 0 < longest c := by
  unfold longest
  split <;> decide

/-- A run that is longer than its letter has forms shows the longest of them. -/
theorem format_longest {c : Char} (hc : c ∈ letters) {n : Nat} (hn : longest c ≤ n) (t : Instant) :
    (ofSpec (String.ofList ('%' :: List.replicate n c))).format t =
      (ofSpec (String.ofList ('%' :: List.replicate (longest c) c))).format t := by
  obtain ⟨part, hpart⟩ := exists_ofRun? hc (longest c)
  have hread : ∀ m, longest c ≤ m → pieces ('%' :: List.replicate m c) = [part] := by
    intro m hm
    rw [← ofRun?_of_longest_le hc hm] at hpart
    obtain ⟨k, rfl⟩ := Nat.exists_eq_add_one.mpr (Nat.lt_of_lt_of_le (longest_pos c) hm)
    exact pieces_run_alone hpart
  apply String.toList_injective
  rw [format_written_run, format_written_run, hread n hn, hread (longest c) (Nat.le_refl _)]

/-- A specification that is put together from pieces, and is not a single character, shows what the pieces show; and
    runs that are longer than their letter has forms show the same as the longest. -/
theorem format_pieces (t : Instant) :
    (∀ ps : List Piece, (ps.flatMap Piece.written).length ≠ 1 →
      (ofSpec (String.ofList (ps.flatMap Piece.written))).format t = String.ofList (ps.flatMap (Piece.shown t))) ∧
      ∀ letter ∈ letters, ∀ count, longest letter ≤ count →
        (ofSpec (String.ofList ('%' :: List.replicate count letter))).format t =
          (ofSpec (String.ofList ('%' :: List.replicate (longest letter) letter))).format t := by
  refine ⟨fun ps h => ?_, fun letter hletter count hcount => format_longest hletter hcount t⟩
  -- Of a single character it is not known whether it names a standard specification.
  have hlong : ∀ c, ps.flatMap Piece.written = [c] → standard? c = none := by
    intro c hc
    rw [hc] at h
    exact absurd rfl h
  apply String.toList_injective
  rw [format_ofSpec hlong, pieces_flatMap_written, List.flatMap_assoc, String.toList_ofList]
  simp only [render_pieces_written]

/-- Letters on both sides of a boundary, a quote in the other quote, nothing in quotes, and a run of nine years. -/
theorem format_pieces_mixed :
    let t : Instant := ⟨1704101415, 0, 3600⟩
    let ps : List Piece := [.escaped 'y', .run 'y' 9 (by decide), .quoted '"' ['d', '\'', 'd'] (.inr rfl) (by decide),
      .run 'd' 1 (by decide), .quoted '\'' [] (.inl rfl) (by decide), .run 'd' 1 (by decide),
      .plain 'T' (by decide) (by decide), .zone]
    (ps.flatMap Piece.written).length ≠ 1 ∧ longest 'y' ≤ 9 ∧
      (ofSpec "\\y%yyyyyyyyy\"d'd\"%d''%dTK").format t = "y02024d'd11T+01:00" ∧
      (ofSpec "%yyyyyyyyy").format t = (ofSpec "%yyyyy").format t := by
  intro t ps
  refine ⟨by decide, by decide, ?_, ?_⟩
  · have hshown := (format_pieces t).1 ps (by decide)
    have hwritten : String.ofList (ps.flatMap Piece.written) = "\\y%yyyyyyyyy\"d'd\"%d''%dTK" := by decide +kernel
    rw [hwritten] at hshown
    rw [hshown]
    decide +kernel
  · exact (format_pieces t).2 'y' (by decide) 9 (by decide)

end DateFormat
end Logbook
