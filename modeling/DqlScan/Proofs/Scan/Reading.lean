import DqlScan.Proofs.Literal.Completion
import DqlScan.Proofs.Text.Utf8
import DqlScan.Scan.Directory

/-!
# What reading a file yields

A file yields the queries of the text that its octets encode, or a fault where they stop being one
(`scanFile_decodes`). A text yields a notice exactly if it leaves a literal open, and the notice
says what would close it (`Reading.notices_ofContent`).
-/

namespace DqlScan

open Literal (Delimiter OpensAt ClosedBy)

variable {fs : FileSystem} {path : Path} {bytes : Bytes}

theorem scanFile_eq (h : fs.find? path = .ok (some (.file bytes))) (shown : Text) :
    scanFile fs path shown =
      ((Utf8.decode bytes).mapError fun bad => .unread path (.encoding bad)).map
        fun t => .ofContent t (if shown = [] then path.text else shown) := by
  have htext : Node.text (.file bytes) = (Utf8.decode bytes).mapError .encoding := rfl
  simp only [scanFile, h, htext]
  cases Utf8.decode bytes <;> rfl

theorem scanFile_of_encode (h : fs.find? path = .ok (some (.file bytes))) {t : Text}
    (ht : Utf8.encode t = bytes) (shown : Text) :
    scanFile fs path shown = .ok (.ofContent t (if shown = [] then path.text else shown)) := by
  rw [scanFile_eq h, Utf8.decode_eq_ok.mpr ht]
  rfl

theorem scanFile_of_decode_error (h : fs.find? path = .ok (some (.file bytes))) {bad : Utf8.Fault}
    (hbad : Utf8.decode bytes = .error bad) (shown : Text) :
    scanFile fs path shown = .error (.unread path (.encoding bad)) := by
  rw [scanFile_eq h, hbad]
  rfl

/-- A file whose octets encode a text yields the queries of that text, the only one that they
encode; any other file yields the offset up to which its octets are a text. -/
theorem scanFile_decodes (h : fs.find? path = .ok (some (.file bytes))) (shown : Text) :
    ((∃ bad, scanFile fs path shown = .error (.unread path (.encoding bad))) ↔
      ∀ t, Utf8.encode t ≠ bytes) ∧
    (∀ bad, scanFile fs path shown = .error (.unread path (.encoding bad)) →
      IsGreatest (Utf8.textLengths bytes) bad.offset ∧
      Utf8.NamesStart (FileFault.unread path (.encoding bad)).message bad.offset) ∧
    ∀ t, Utf8.encode t = bytes →
      (∀ u, Utf8.encode u = bytes → u = t) ∧
      (scanFile fs path shown).map Reading.queries =
        .ok (findQueries t (if shown = [] then path.text else shown)) := by
  refine ⟨⟨?_, fun hnone => ?_⟩, fun bad hscan => ?_, fun t ht => ⟨fun u hu => ?_, ?_⟩⟩
  · rintro ⟨bad, hscan⟩ t ht
    rw [scanFile_of_encode h ht] at hscan
    cases hscan
  · cases hdecode : Utf8.decode bytes with
    | ok t => exact absurd (Utf8.decode_eq_ok.mp hdecode) (hnone t)
    | error bad => exact ⟨bad, scanFile_of_decode_error h hdecode shown⟩
  · cases hdecode : Utf8.decode bytes with
    | ok t =>
      rw [scanFile_of_encode h (Utf8.decode_eq_ok.mp hdecode)] at hscan
      cases hscan
    | error bad' =>
      obtain rfl : bad' = bad := by simpa [scanFile_of_decode_error h hdecode] using hscan
      exact ⟨Utf8.decode_error hdecode, bad'.namesStart⟩
  · exact Utf8.encode_injective (hu.trans ht.symm)
  · rw [scanFile_of_encode h ht]
    rfl

theorem scanFile_decodes_surrogate :
    let bytes : Bytes := [0x0D, 0x0A, 0xED, 0xA0, 0x80]
    let fs : FileSystem := ⟨.file "a.js".toList bytes .nil, []⟩
    let path : Path := ⟨.root, ["a.js".toList]⟩
    fs.find? path = .ok (some (.file bytes)) ∧
      ∃ bad, scanFile fs path [] = .error (.unread path (.encoding bad)) ∧
        IsGreatest (Utf8.textLengths bytes) 2 ∧
        Utf8.NamesStart (FileFault.unread path (.encoding bad)).message 2 := by
  intro bytes fs path
  have hfind : fs.find? path = .ok (some (.file bytes)) := by rfl
  have hscan : scanFile fs path [] =
      .error (.unread path (.encoding ⟨.invalidContinuation, 2, [0xED]⟩)) := by rfl
  exact ⟨hfind, _, hscan, (scanFile_decodes hfind []).2.1 _ hscan⟩

example :
    let content : Text := '\uFEFF' :: "x = 'fetch logs\r\n| limit 1'".toList
    let fs : FileSystem := ⟨.file "a.js".toList (Utf8.encode content) .nil, []⟩
    (scanFile fs ⟨.root, ["a.js".toList]⟩ "b.js".toList).toOption.map Reading.queries =
      some [⟨"fetch logs\r\n| limit 1".toList, "b.js".toList, 1, 5⟩] := by
  decide +kernel

/-- There is at most one notice, for the literal that the text leaves open. It is closed by as many
braces as the notice says, behind a character if the last backslash wants one, and a delimiter. -/
theorem Reading.notices_ofContent (content file : Text) :
    let notices := (Reading.ofContent content file).notices
    (notices.length ≤ 1 ∧ ∀ notice ∈ notices, notice.level = .debug) ∧
    (∀ start, (∃ state, notices = [.unterminated ⟨start, state⟩]) ↔ OpensAt content start) ∧
    ∀ start state, notices = [.unterminated ⟨start, state⟩] →
      ∃ (d : Delimiter) (depth : Nat), content[start]? = some d.char ∧
        state.mode.delimiter? = some d ∧ state.depth = depth ∧ ClosedBy content start depth d := by
  have hsingle (start : Nat) (state : Literal.State) :
      (Reading.ofContent content file).notices = [.unterminated ⟨start, state⟩] ↔
        Literal.unterminated? content = some ⟨start, state⟩ := by
    cases h : Literal.unterminated? content <;> simp [ofContent, h]
  refine ⟨⟨?_, ?_⟩, fun start => ?_, fun start state h => ?_⟩
  · cases h : Literal.unterminated? content <;> simp [ofContent, h]
  · intro notice hnotice
    obtain ⟨literal, -, rfl⟩ := List.mem_map.mp hnotice
    rfl
  · simp only [hsingle]
    exact Literal.unterminated?_iff
  · exact Literal.exists_completion ((hsingle start state).mp h)

end DqlScan
