import Mathlib.Data.List.Induction
import Logbook.Proofs.Since
import Logbook.Proofs.Store.History

/-! Epochs of a log file. The first line of an epoch may empty the file, and every later one goes to its end. Which
    entries of a history start an epoch is said from the configurations and the paths alone, without a look at
    whether the file counts as written. Main statement: the file counts as written exactly if a line was granted in
    the epoch, and the mode of every grant follows. -/

namespace Logbook
namespace Store

/-! ### Epochs -/

/-- An epoch starts with this entry: the request was met, and it changed the settings of the log file or found the
    path again, which now leads elsewhere. -/
def Entry.StartsEpoch (e : Entry) : Prop :=
  e.Succeeds ∧ (¬e.SameFile ∨ e.FindsPath ∧ ¬e.SamePath)

/-- A line was granted in the epoch that lasts at the end of this history. The first epoch starts with the store. -/
def GrantedInEpoch (entries : List Entry) : Prop :=
  ∃ past e later, entries = past ++ e :: later ∧ e.Grants ∧ ∀ x ∈ later, ¬x.StartsEpoch

theorem not_grantedInEpoch_nil : ¬GrantedInEpoch [] :=
  not_since_nil

/-- An entry that starts an epoch and is granted a line is granted it in the new epoch. -/
theorem grantedInEpoch_concat {entries : List Entry} {e : Entry} :
    GrantedInEpoch (entries ++ [e]) ↔ e.Grants ∨ ¬e.StartsEpoch ∧ GrantedInEpoch entries :=
  since_concat

/-! ### What a step keeps -/

theorem startsEpoch_claim {s : Store} {o : Occasion} :
    (s.entry o .claim).StartsEpoch ↔ (s.renew o).path.sameSteps s.path = false := by
  have hentry : s.entry o .claim = ⟨o, .claim, s, .ok (s.claim o).1, (s.claim o).2⟩ := rfl
  simp only [hentry, Entry.StartsEpoch, Entry.SameFile, Entry.FindsPath, Entry.Succeeds, Entry.SamePath, claim_config,
    claim_path, sameFile_self, not_true_eq_false, false_or]
  rw [renew_path]
  cases s.config.file.includeDate <;> simp

/-- After a step the file counts as written if the step granted a line, or if it counted before and no epoch
    started. -/
theorem entry_written {s : Store} {o : Occasion} {r : Request} :
    (s.entry o r).after.written = true ↔
      (s.entry o r).Grants ∨ ¬(s.entry o r).StartsEpoch ∧ s.written = true := by
  rcases entry_cases s o r with ⟨e, h⟩ | ⟨p, c, template, rfl, -, -, h⟩ | ⟨c, -, hfinds, h⟩ | ⟨rfl, h⟩
  · simp [h, Entry.Grants, Entry.StartsEpoch, Entry.Succeeds]
  · cases hc : s.config.sameFile c <;>
      simp [h, hc, Entry.Grants, Entry.StartsEpoch, Entry.Succeeds, Entry.SameFile, Entry.FindsPath]
  · rw [Entry.StartsEpoch, and_iff_right hfinds, and_iff_right hfinds.1, h]
    simp [Entry.Grants, Entry.SameFile, Entry.SamePath, and_comm, and_assoc]
  · rw [startsEpoch_claim, h]
    cases hempty : (s.renew o).path.isEmpty
    · simp [claim_of_not_isEmpty hempty, Entry.Grants]
    · simp [claim_of_isEmpty hempty, Entry.Grants, renew_written, and_comm]

/-- The file counts as written exactly if a line was granted in the epoch. -/
theorem written_run (first : Occasion) (past : List (Occasion × Request)) :
    ((initial first).run past).written = true ↔ GrantedInEpoch ((initial first).history past) := by
  -- The induction is on the last request, because an epoch is told from the end of a history.
  induction past using List.reverseRecOn with
  | nil => simp [run, history, not_grantedInEpoch_nil, initial]
  | append_singleton past x ih =>
    obtain ⟨o, r⟩ := x
    rw [run_append, history_append]
    show (((initial first).run past).entry o r).after.written = true ↔
      GrantedInEpoch ((initial first).history past ++ [((initial first).run past).entry o r])
    rw [grantedInEpoch_concat, entry_written, ih]

/-! ### The mode of a grant -/

/-- A claim is granted a line that empties the file if the configuration says so and the file, as the claim finds
    it, does not count as written. -/
theorem mode_claim {s : Store} {o : Occasion} {grant : FileGrant} (h : (s.claim o).1 = some grant) :
    grant.mode = .overwrite ↔
      s.config.file.overwrite = true ∧ ((s.entry o .claim).StartsEpoch ∨ ¬s.written = true) := by
  have hclaim : s.claim o = (some grant, (s.claim o).2) := Prod.ext h rfl
  rw [(claim_eq_some hclaim).1, startsEpoch_claim, renew_written]
  cases s.config.file.overwrite <;> cases s.written <;> cases (s.renew o).path.sameSteps s.path <;> simp

/-- Only the first line of an epoch may empty the file: the file counts as written exactly if a line was granted in
    the epoch, and a line that is granted now empties the file exactly if the configuration says so and no line was
    granted in the epoch, which the claim itself may start; any other line goes to the end. -/
theorem overwrite_once (first : Occasion) (past : List (Occasion × Request)) :
    let s := (initial first).run past
    let entries := (initial first).history past
    (s.written = true ↔ GrantedInEpoch entries) ∧
    ∀ o grant, (s.entry o .claim).answer = .ok (some grant) →
      (grant.mode = .overwrite ↔
        s.config.file.overwrite = true ∧ ((s.entry o .claim).StartsEpoch ∨ ¬GrantedInEpoch entries)) ∧
      (grant.mode = .append ↔
        ¬(s.config.file.overwrite = true ∧ ((s.entry o .claim).StartsEpoch ∨ ¬GrantedInEpoch entries))) := by
  intro s entries
  have hwritten : s.written = true ↔ GrantedInEpoch entries := written_run first past
  refine ⟨hwritten, fun o grant hgrant => ?_⟩
  have hmode := mode_claim (Except.ok.inj hgrant)
  rw [hwritten] at hmode
  refine ⟨hmode, ?_⟩
  rw [← hmode]
  cases grant.mode <;> simp

end Store
end Logbook
