import DqlScan.CommandLine.Collection
import DqlScan.Proofs.Scan.Reading

/-!
# Collections one after another

What a list of paths yields is what the first yields and behind it what the others do, unless the first
breaks off (`Collection.ofPaths_cons`). So it is for two lists (`Collection.ofPaths_append`).
-/

namespace DqlScan

theorem ScanResult.append_eq (r s : ScanResult) :
    r ++ s = ⟨r.queries ++ s.queries, r.filesScanned + s.filesScanned,
      r.unreadable ++ s.unreadable⟩ := rfl

namespace CommandLine.Collection

theorem append_eq (c d : Collection) :
    c ++ d = ⟨c.result ++ d.result, c.errors ++ d.errors, c.notices ++ d.notices⟩ := rfl

theorem empty_append (c : Collection) : {} ++ c = c := by
  rw [append_eq, ScanResult.empty_append]
  rfl

theorem append_assoc (c d e : Collection) : c ++ d ++ e = c ++ (d ++ e) := by
  simp only [append_eq, ScanResult.append_assoc, List.append_assoc]

/-- What was collected, and behind it what is collected later, unless a fault broke off before. -/
def andThen (first later : Collection × Option PathFault) : Collection × Option PathFault :=
  match first with
  | (c, some fault) => (c, some fault)
  | (c, none) => (c ++ later.1, later.2)

theorem andThen_of_none {x : Collection × Option PathFault} (h : x.2 = none)
    (y : Collection × Option PathFault) : andThen x y = (x.1 ++ y.1, y.2) := by
  obtain ⟨c, fault⟩ := x
  cases h
  rfl

theorem fault_andThen (x y : Collection × Option PathFault) : (andThen x y).2 = x.2.or y.2 := by
  rcases x with ⟨c, _ | fault⟩ <;> rfl

theorem andThen_assoc (x y z : Collection × Option PathFault) :
    andThen (andThen x y) z = andThen x (andThen y z) := by
  rcases x with ⟨c, _ | fault⟩
  · rcases y with ⟨d, _ | fault⟩
    · exact Prod.ext (append_assoc c d z.1) rfl
    · rfl
  · rfl

variable {fs : FileSystem} {verbose : Bool}

theorem ofFile_of_decode {path : Path} {content : Bytes} {t : Text}
    (h : fs.find? path = .ok (some (.file content))) (ht : Utf8.decode content = .ok t) :
    ofFile fs path =
      ({ result := ⟨findQueries t path.text, 1, []⟩
         notices := (Reading.ofContent t path.text).notices }, none) := by
  rw [ofFile, scanFile_of_encode h (Utf8.decode_eq_ok.mp ht), ite_self]
  rfl

theorem fault_ofFile_of_decode_error {path : Path} {content : Bytes} {bad : Utf8.Fault}
    (h : fs.find? path = .ok (some (.file content))) (hbad : Utf8.decode content = .error bad) :
    (ofFile fs path).2 = some .unreadable := by
  rw [ofFile, scanFile_of_decode_error h hbad]

theorem ofPaths_cons (path : Path) (paths : List Path) :
    ofPaths fs verbose (path :: paths) =
      andThen (ofPath fs verbose path) (ofPaths fs verbose paths) := by
  rw [ofPaths]
  rcases ofPath fs verbose path with ⟨here, _ | fault⟩ <;> rfl

theorem fault_ofPaths_cons (path : Path) (paths : List Path) :
    (ofPaths fs verbose (path :: paths)).2 =
      (ofPath fs verbose path).2.or (ofPaths fs verbose paths).2 := by
  rw [ofPaths_cons, fault_andThen]

theorem ofPaths_append (ps qs : List Path) :
    ofPaths fs verbose (ps ++ qs) = andThen (ofPaths fs verbose ps) (ofPaths fs verbose qs) := by
  induction ps with
  | nil => exact Prod.ext (empty_append _).symm rfl
  | cons path ps ih => rw [List.cons_append, ofPaths_cons, ofPaths_cons, ih, andThen_assoc]

end CommandLine.Collection

end DqlScan
