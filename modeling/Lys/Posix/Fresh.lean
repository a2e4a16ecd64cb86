import Lys.Posix.Solo

open rust effect posix Fs

namespace posix

variable {Who Event : Type} {who : Who} {inv : World Who Event → Prop} {faultless : Bool} {path : Path}
  {w w' : World Who Event} {contents : Bytes}

/-- Storing more of the contents of a file extends what it holds. -/
theorem content_stored {inode k count : Nat} (hfind : w.fs.find path = some (.file inode))
    (hcontent : w.fs.content inode = contents.take k) (hle : k + count ≤ contents.length) :
    (w.stored who inode k contents count).fs.content inode = contents.take (k + count) := by
  have hlength : (w.fs.content inode).length = k := by
    rw [hcontent, List.length_take]
    omega
  change (w.fs.write inode k ((contents.drop k).take count)).content inode = _
  rw [content_write_end (lt_of_find_eq_file hfind) hlength, hcontent, ← List.take_add]

/-- A file was made at a path that named nothing, and holds `bytes`. Everything else is as it was. -/
structure Created (path : Path) (w : World Who Event) (inode : Nat) (bytes : Bytes) (w' : World Who Event) : Prop where
  absent : w.fs.find path = none
  find_eq : ∀ q, q ≠ path → w'.fs.find q = w.fs.find q
  view_eq : ∀ q, q ≠ path → w'.fs.view q = w.fs.view q
  unnamed : ∀ q, q ≠ path → w'.fs.find q ≠ some (.file inode)
  find : w'.fs.find path = some (.file inode)
  content : w'.fs.content inode = bytes

theorem Created.view {inode : Nat} {bytes : Bytes} (h : Created path w inode bytes w') :
    w'.fs.view path = some (.file bytes) := by
  rw [view_of_find_file h.find, h.content]

theorem Created.create_new {inode : Nat} {fs : Fs} (h : w.fs.create_new path = .ok (inode, fs)) (hw' : w'.fs = fs) :
    Created path w inode [] w' := by
  subst hw'
  obtain ⟨_, hnone, rfl, hfind, hcontent, _⟩ := create_new_eq_ok h
  have helsewhere : ∀ q, q ≠ path → w'.fs.find q = w.fs.find q := fun q hq => by rw [hfind, if_neg hq]
  refine ⟨hnone, helsewhere, fun q hq => view_congr (helsewhere q hq) fun i _ => hcontent i, fun q hq hfile => ?_,
    by rw [hfind, if_pos rfl], by rw [hcontent, content_eq_nil_of_le le_rfl]⟩
  rw [helsewhere q hq] at hfile
  exact absurd (lt_of_find_eq_file hfile) (lt_irrefl _)

theorem Created.stored (who : Who) {inode k count : Nat} (h : Created path w inode (contents.take k) w')
    (hle : k + count ≤ contents.length) :
    Created path w inode (contents.take (k + count)) (w'.stored who inode k contents count) where
  absent := h.absent
  find_eq := h.find_eq
  view_eq q hq := by
    rw [← h.view_eq q hq]
    refine view_congr rfl fun i hi => content_write_of_ne ?_
    rintro rfl
    exact h.unnamed q hq hi
  unnamed := h.unnamed
  find := h.find
  content := content_stored h.find h.content hle

/-- Filling a new file. -/
theorem Created.writes {inode : Nat} {Q : World Who Event → Prop}
    (hinv : ∀ k w', Created path w inode (contents.take k) w' → inv w')
    (hfails : faultless = false → ∀ k w', k < contents.length → Created path w inode (contents.take k) w' → Q w') :
    Writes who (solo inv faultless) inode contents
      (fun k w' => k ≤ contents.length ∧ Created path w inode (contents.take k) w') Q :=
  Writes.solo
    (fun k count _ hw' _ _ hle =>
      have hstored := hw'.2.stored who hle
      ⟨hinv (k + count) _ hstored, hle, hstored⟩)
    (fun hfault k hk w' hw' _ => hfails hfault k w' hk hw'.2)

end posix
