import DqlScan.Proofs.Scan.Root
import DqlScan.Scan.Directory

/-!
# Outcomes of scans

What a scan does with the files that its walk reads, apart from the notices of the walk.
-/

namespace DqlScan

namespace Outcome

def ofFile (file : List Text × Bytes) : Outcome := ofVisit (.file file.1 file.2)

/-- Whether a file was read, whatever its content. -/
def isRead : Outcome → Bool
  | .told _ => false
  | .scanned .. | .unreadable .. => true

theorem isRead_ofFile (file : List Text × Bytes) : (ofFile file).isRead = true := by
  simp only [ofFile, ofVisit]
  split <;> rfl

end Outcome

namespace DirectoryScan

def reads (s : DirectoryScan) : List Outcome := s.outcomes.filter (·.isRead)

theorem reads_ofWalk (w : Walk) : (ofWalk w).reads = w.files.map .ofFile := by
  obtain ⟨visits, ending⟩ := w
  simp only [reads, ofWalk, Walk.files]
  induction visits with
  | nil => rfl
  | cons visit visits ih =>
    cases visit with
    | notice n => simpa [Outcome.ofVisit, Outcome.isRead, Visit.file?] using ih
    | file parts content =>
      have hread : (Outcome.ofVisit (.file parts content)).isRead = true :=
        Outcome.isRead_ofFile (parts, content)
      simp only [List.map_cons, List.filter_cons, hread, if_true, List.filterMap_cons, Visit.file?,
        ih]
      rfl

theorem fault_ofWalk_eq_none {w : Walk} : (ofWalk w).fault = none ↔ ∃ f, w.ending = .ok f := by
  unfold ofWalk
  rcases w.ending with fault | f <;> simp

theorem queries_of_not_isRead {o : Outcome} (h : o.isRead = false) : o.queries = [] := by
  cases o with
  | told n => rfl
  | scanned file language reading => cases h
  | unreadable file fault => cases h

theorem flatMap_queries_eq (outcomes : List Outcome) :
    outcomes.flatMap (·.queries) = (outcomes.filter (·.isRead)).flatMap (·.queries) := by
  induction outcomes with
  | nil => rfl
  | cons o outcomes ih =>
    rw [List.flatMap_cons, List.filter_cons, ih]
    cases h : o.isRead with
    | true => rfl
    | false => rw [queries_of_not_isRead h]; rfl

theorem seen_eq (s : DirectoryScan) : s.seen = s.reads.filterMap (·.seen?) := by
  rw [seen, reads, List.filterMap_filter]
  congr 1
  funext o
  cases o <;> rfl

theorem unreadable_eq (s : DirectoryScan) :
    s.result.unreadable = s.reads.filterMap (·.unreadable?) := by
  rw [result, reads, List.filterMap_filter]
  show s.outcomes.filterMap (·.unreadable?) = _
  congr 1
  funext o
  cases o <;> rfl

/-- What a scan reports of its files depends on what it has read alone. -/
theorem result_of_reads {s t : DirectoryScan} (h : s.reads = t.reads) :
    s.result = t.result ∧ s.seen = t.seen := by
  have hseen : s.seen = t.seen := by rw [seen_eq, seen_eq, h]
  have hunreadable : s.result.unreadable = t.result.unreadable := by
    rw [unreadable_eq, unreadable_eq, h]
  have hqueries : s.result.queries = t.result.queries := by
    simp only [result]
    rw [flatMap_queries_eq, flatMap_queries_eq t.outcomes]
    exact congrArg (List.flatMap (·.queries)) h
  refine ⟨?_, hseen⟩
  rw [result, result, ScanResult.mk.injEq]
  exact ⟨hqueries, congrArg (fun l => (l.length : Int)) hseen, hunreadable⟩

variable {s : DirectoryScan} {files : List (List Text × Bytes)}

theorem queries_of_reads (h : s.reads = files.map .ofFile) :
    s.result.queries = files.flatMap fun file => (Outcome.ofFile file).queries := by
  show s.outcomes.flatMap (·.queries) = _
  rw [flatMap_queries_eq, show s.outcomes.filter (·.isRead) = files.map .ofFile from h,
    List.flatMap_map]

theorem seen_of_reads (h : s.reads = files.map .ofFile) :
    s.seen = files.flatMap fun file => (Outcome.ofFile file).seen?.toList := by
  rw [seen_eq, h, List.filterMap_map, List.filterMap_eq_flatMap_toList]
  rfl

theorem unreadable_of_reads (h : s.reads = files.map .ofFile) :
    s.result.unreadable = files.flatMap fun file => (Outcome.ofFile file).unreadable?.toList := by
  rw [unreadable_eq, h, List.filterMap_map, List.filterMap_eq_flatMap_toList]
  rfl

end DirectoryScan

end DqlScan
