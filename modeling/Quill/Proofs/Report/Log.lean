import Quill.Report.Log

/-! # Logs as sequences

Reports are only ever added at the end of a log, so a log that is made in two parts is the one part
followed by the other.  `++` puts logs together kind by kind, and a report that is added to both
parts is added to the second (`append_add`). -/

namespace Quill.Report.Log

instance : Append Log := ⟨fun l l' => ⟨l.wording ++ l'.wording, l.meaning ++ l'.meaning⟩⟩

@[simp] theorem wording_append (l l' : Log) : (l ++ l').wording = l.wording ++ l'.wording := rfl

@[simp] theorem meaning_append (l l' : Log) : (l ++ l').meaning = l.meaning ++ l'.meaning := rfl

@[simp] theorem append_empty (l : Log) : l ++ empty = l := by
  show Log.mk (l.wording ++ #[]) (l.meaning ++ #[]) = l
  rw [Array.append_empty, Array.append_empty]

@[simp] theorem empty_append (l : Log) : empty ++ l = l := by
  show Log.mk (#[] ++ l.wording) (#[] ++ l.meaning) = l
  rw [Array.empty_append, Array.empty_append]

theorem append_assoc (l l' l'' : Log) : l ++ l' ++ l'' = l ++ (l' ++ l'') := by
  show Log.mk _ _ = Log.mk _ _
  simp only [wording_append, meaning_append, Array.append_assoc]

theorem append_add (l l' : Log) (r : Report) : (l ++ l').add r = l ++ l'.add r := by
  unfold add
  cases r.kind with
  | wording => exact congrArg (Log.mk · _) Array.push_append
  | meaning => exact congrArg (Log.mk _ ·) Array.push_append

/-! ### Logs without reports -/

theorem size_eq_zero_iff (l : Log) : l.size = 0 ↔ l = empty := by
  constructor
  · intro h
    obtain ⟨wording, meaning⟩ := l
    simp only [size, Nat.add_eq_zero_iff, Array.size_eq_zero_iff] at h
    rw [h.1, h.2, empty]
  · rintro rfl
    rfl

theorem append_eq_empty_iff {l l' : Log} : l ++ l' = empty ↔ l = empty ∧ l' = empty := by
  simp only [← size_eq_zero_iff, size, wording_append, meaning_append, Array.size_append]
  omega

theorem isEmpty_iff (l : Log) : l.isEmpty = true ↔ l = empty := by
  simp [isEmpty, size_eq_zero_iff]

theorem hasReports_eq_false_iff (l : Log) : l.hasReports = false ↔ l = empty := by
  rw [← size_eq_zero_iff]
  simp [hasReports, hasWording, hasMeaning, size]

/-! ### The reports of a log -/

/-- The reports of a log in a row, those on wording first. -/
def reports (l : Log) : List Report := l.toArray.toList

theorem reports_append_perm (l l' : Log) : (l ++ l').reports.Perm (l.reports ++ l'.reports) := by
  simp only [reports, toArray, wording_append, meaning_append, Array.toList_append,
    List.append_assoc]
  apply List.Perm.append_left
  rw [← List.append_assoc, ← List.append_assoc]
  apply List.Perm.append_right
  exact List.perm_append_comm

/-- The logs of a list, one after the other. -/
def joined : List Log → Log
  | [] => empty
  | l :: ls => l ++ joined ls

theorem reports_joined_perm : ∀ ls : List Log, (joined ls).reports.Perm (ls.flatMap reports)
  | [] => .refl []
  | l :: ls =>
    (reports_append_perm l (joined ls)).trans ((reports_joined_perm ls).append_left l.reports)

theorem reports_joined_congr {ls ls' : List Log} (h : ls.Perm ls') :
    (joined ls).reports.Perm (joined ls').reports :=
  (reports_joined_perm ls).trans ((h.flatMap_right _).trans (reports_joined_perm ls').symm)

end Quill.Report.Log
