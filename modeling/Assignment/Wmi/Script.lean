import Assignment.Lib.Rounding

/-!
# The disk report (script.ps1)

The disks are sorted by a used space in gigabytes that is computed from the
exact sizes, and shown with one that is computed from the sizes with two
decimals. The two differ by at most two, in narrow bands around half a
gigabyte, and the report is in the order of what it shows exactly when no
two disks are in bands that outweigh the difference of their keys
(`report_sorted_iff`).
-/

namespace Assignment.Wmi

open Rounding

/-- What the script reads of a `win32_logicaldisk`. -/
structure LogicalDisk where
  name : String
  size : Nat
  freeSpace : Nat
  free_le : freeSpace ≤ size
deriving DecidableEq

/-- `$_.Size/1GB` -/
def gigabytes (bytes : Nat) : ℚ := bytes / 2 ^ 30

/-- `"{0:N2}" -f …`: a text with two decimals, as its hundredths. -/
structure N2 where
  hundredths : Int
deriving DecidableEq

def N2.format (x : ℚ) : N2 := ⟨Rounding.hundredths x⟩

/-- `[int]` of such a text. -/
def N2.toInt (text : N2) : Int := roundEven ((text.hundredths : ℚ) / 100)

namespace LogicalDisk

/-- `[int]($_.Size/1GB) - [int]($_.FreeSpace/1GB)` -/
def key (disk : LogicalDisk) : Int :=
  roundEven (gigabytes disk.size) - roundEven (gigabytes disk.freeSpace)

end LogicalDisk

/-- What is written for a disk. -/
structure Row where
  usedSpace : Int
  totalSpace : N2
  name : String
deriving DecidableEq

/-- The body of the `foreach`. -/
def row (disk : LogicalDisk) : Row :=
  let freeSpace := N2.format (gigabytes disk.freeSpace)
  let totalSpace := N2.format (gigabytes disk.size)
  { usedSpace := totalSpace.toInt - freeSpace.toInt
    totalSpace := totalSpace
    name := disk.name }

/-- What `Sort-Object` may make of a list: it is not stable. -/
def SortObject {α : Type} (key : α → Int) (input output : List α) : Prop :=
  output.Perm input ∧ output.Pairwise fun a b => key a ≤ key b

/-- The rows that the script writes for these disks. -/
def Report (disks : List LogicalDisk) (rows : List Row) : Prop :=
  ∃ sorted, SortObject LogicalDisk.key disks sorted ∧ rows = sorted.map row

/-! ## What is shown against what is sorted by -/

/-- How far the two roundings move the used space of a disk: its size one
way, its free space the other. -/
def LogicalDisk.shift (disk : LogicalDisk) : Int :=
  Rounding.shift (gigabytes disk.size) - Rounding.shift (gigabytes disk.freeSpace)

theorem gigabytes_nonneg (bytes : Nat) : 0 ≤ gigabytes bytes := by
  unfold gigabytes
  positivity

theorem toInt_format (bytes : Nat) : (N2.format (gigabytes bytes)).toInt
    = roundEven (gigabytes bytes) + Rounding.shift (gigabytes bytes) :=
  roundEven_hundredths (gigabytes_nonneg bytes)

/-- The used space shown is the key, shifted. -/
theorem usedSpace_row (disk : LogicalDisk) : (row disk).usedSpace = disk.key + disk.shift := by
  simp only [row, toInt_format, LogicalDisk.key, LogicalDisk.shift]
  omega

/-- Two disks of a list come out in this order if their keys allow it. -/
theorem exists_sorted_pair {α : Type} [DecidableEq α] {key : α → Int} {input : List α} {a b : α}
    (ha : a ∈ input) (hb : b ∈ input) (hne : a ≠ b) (hkey : key a ≤ key b) :
    ∃ output, SortObject key input output ∧ List.Sublist [a, b] output := by
  let le : α → α → Bool := fun x y => decide (key x ≤ key y)
  have htrans : ∀ x y z, le x y → le y z → le x z := by
    simp only [le, decide_eq_true_eq]
    omega
  have htotal : ∀ x y, le x y || le y x := by
    simp only [le, Bool.or_eq_true, decide_eq_true_eq]
    omega
  -- a stable sort keeps the order of the two where they stand in front
  let front := a :: b :: (input.erase a).erase b
  have hfront : front.Perm input := by
    have hb' : b ∈ input.erase a := (List.mem_erase_of_ne hne.symm).mpr hb
    exact ((List.perm_cons_erase hb').symm.cons a).trans (List.perm_cons_erase ha).symm
  have hsublist : List.Sublist [a, b] front := ((List.nil_sublist _).cons_cons b).cons_cons a
  refine ⟨front.mergeSort le, ⟨(List.mergeSort_perm front le).trans hfront, ?_⟩, ?_⟩
  · refine (List.pairwise_mergeSort htrans htotal front).imp ?_
    intro x y h
    exact of_decide_eq_true h
  · exact List.pair_sublist_mergeSort htrans htotal (decide_eq_true hkey) hsublist

/-- **The report is sorted by what it shows, exactly**: every report on these
disks has non-decreasing used space if and only if no disk is moved past one
whose key is not smaller: for any two with keys in order, what the first
gains over the second is at most the difference of the keys. -/
theorem report_sorted_iff (disks : List LogicalDisk) :
    (∀ rows, Report disks rows → rows.Pairwise fun r r' => r.usedSpace ≤ r'.usedSpace)
      ↔ ∀ a ∈ disks, ∀ b ∈ disks, a.key ≤ b.key → a.shift - b.shift ≤ b.key - a.key := by
  constructor
  · intro h a ha b hb hkey
    by_cases hsame : a = b
    · rw [hsame]
      omega
    · obtain ⟨sorted, hsorted, hpair⟩ := exists_sorted_pair ha hb hsame hkey
      have hrows := (h _ ⟨sorted, hsorted, rfl⟩).sublist (hpair.map row)
      have hused : (row a).usedSpace ≤ (row b).usedSpace := by simpa using hrows
      rw [usedSpace_row, usedSpace_row] at hused
      omega
  · rintro h rows ⟨sorted, ⟨hperm, hsorted⟩, rfl⟩
    rw [List.pairwise_map]
    refine hsorted.imp_of_mem ?_
    intro a b ha hb hkey
    have hshift := h a (hperm.mem_iff.mp ha) b (hperm.mem_iff.mp hb) hkey
    rw [usedSpace_row, usedSpace_row]
    omega

/-- A disk of `1.4975` GB without free space. -/
def justBelow : LogicalDisk := ⟨"C:", 1607928586, 0, by decide⟩

/-- A disk of 3 GB with as much of it free. -/
def justAbove : LogicalDisk := ⟨"D:", 3 * 2 ^ 30, 1607928586, by decide⟩

/-- The first is sorted first, with key 1, and shown with 2; the second has
key 2 and is shown with 1. -/
theorem bands_reverse : ¬ ∀ disks rows, Report disks rows →
    rows.Pairwise fun r r' => r.usedSpace ≤ r'.usedSpace := by
  intro h
  have hkeys : justBelow.key ≤ justAbove.key := by decide +kernel
  have hused : ¬ (row justBelow).usedSpace ≤ (row justAbove).usedSpace := by decide +kernel
  have hrows := h [justBelow, justAbove] [row justBelow, row justAbove]
    ⟨[justBelow, justAbove], ⟨List.Perm.refl _, by simpa using hkeys⟩, rfl⟩
  exact hused (by simpa using hrows)

/-! ## How far the report is from the disks -/

/-- The space in use, in gigabytes. -/
def LogicalDisk.used (disk : LogicalDisk) : ℚ := gigabytes disk.size - gigabytes disk.freeSpace

/-- A row that tells of this disk what is true, within its roundings. -/
structure Accurate (disk : LogicalDisk) (row : Row) : Prop where
  name : row.name = disk.name
  total : |(row.totalSpace.hundredths : ℚ) / 100 - gigabytes disk.size| ≤ 1 / 200
  used_nonneg : 0 ≤ row.usedSpace
  used : |(row.usedSpace : ℚ) - disk.used| ≤ 101 / 100

theorem gigabytes_mono {a b : Nat} (h : a ≤ b) : gigabytes a ≤ gigabytes b := by
  unfold gigabytes
  gcongr

/-- A number read back from its two decimals is at most half a gigabyte and
half a hundredth from what it was. -/
theorem abs_toInt_format_sub_le (bytes : Nat) :
    |((N2.format (gigabytes bytes)).toInt : ℚ) - gigabytes bytes| ≤ 101 / 200 := by
  have hint := abs_le.mp (abs_roundEven_sub_le ((hundredths (gigabytes bytes) : ℚ) / 100))
  have htext := abs_le.mp (abs_hundredths_sub_le (gigabytes_nonneg bytes))
  rw [N2.toInt, N2.format, abs_le]
  constructor <;> linarith only [hint.1, hint.2, htext.1, htext.2]

/-- Both roundings keep the order, so that the free space shown is not more
than the size. -/
theorem toInt_format_mono {a b : Nat} (h : a ≤ b) :
    (N2.format (gigabytes a)).toInt ≤ (N2.format (gigabytes b)).toInt := by
  have htext := hundredths_mono (gigabytes_nonneg a) (gigabytes_mono h)
  rw [N2.toInt, N2.toInt]
  apply roundEven_mono
  simp only [N2.format]
  gcongr

theorem row_accurate (disk : LogicalDisk) : Accurate disk (row disk) where
  name := rfl
  total := abs_hundredths_sub_le (gigabytes_nonneg _)
  used_nonneg := sub_nonneg.mpr (toInt_format_mono disk.free_le)
  used := by
    have hsize := abs_le.mp (abs_toInt_format_sub_le disk.size)
    have hfree := abs_le.mp (abs_toInt_format_sub_le disk.freeSpace)
    simp only [row, LogicalDisk.used, abs_le]
    push_cast
    constructor <;> linarith only [hsize.1, hsize.2, hfree.1, hfree.2]

/-- The key is at most one from the space in use: it is rounded once on
either side. -/
theorem abs_key_sub_le (disk : LogicalDisk) : |(disk.key : ℚ) - disk.used| ≤ 1 := by
  have hsize := abs_le.mp (abs_roundEven_sub_le (gigabytes disk.size))
  have hfree := abs_le.mp (abs_roundEven_sub_le (gigabytes disk.freeSpace))
  rw [LogicalDisk.key, LogicalDisk.used, abs_le]
  push_cast
  constructor <;> linarith only [hsize.1, hsize.2, hfree.1, hfree.2]

theorem shift_mem (x : ℚ) : -1 ≤ Rounding.shift x ∧ Rounding.shift x ≤ 1 := by
  rw [Rounding.shift]
  split_ifs <;> omega

/-- **The report is close to the disks**: whatever the sort makes of equal
keys, every report has one row for each disk, which names it, shows a used
space that is never negative and at most `1.01` GB from the space in use; no
disk stands in front of one that has more than two gigabytes less in use, and
no row in front of one that shows more than four less. -/
theorem report_accurate {disks : List LogicalDisk} {rows : List Row} (h : Report disks rows) :
    ∃ sorted : List LogicalDisk, sorted.Perm disks ∧ List.Forall₂ Accurate sorted rows ∧
      (sorted.Pairwise fun a b => a.used ≤ b.used + 2) ∧
      rows.Pairwise fun r r' => r.usedSpace ≤ r'.usedSpace + 4 := by
  obtain ⟨sorted, ⟨hperm, hsorted⟩, rfl⟩ := h
  refine ⟨sorted, hperm, ?_, ?_, ?_⟩
  · rw [List.forall₂_map_right_iff]
    exact List.forall₂_same.mpr fun disk _ => row_accurate disk
  · refine hsorted.imp ?_
    intro a b hkey
    have ha := abs_le.mp (abs_key_sub_le a)
    have hb := abs_le.mp (abs_key_sub_le b)
    have hcast : (a.key : ℚ) ≤ b.key := by exact_mod_cast hkey
    linarith only [ha.1, hb.2, hcast]
  · rw [List.pairwise_map]
    refine hsorted.imp ?_
    intro a b hkey
    have hsize := shift_mem (gigabytes a.size)
    have hfree := shift_mem (gigabytes a.freeSpace)
    have hsize' := shift_mem (gigabytes b.size)
    have hfree' := shift_mem (gigabytes b.freeSpace)
    rw [usedSpace_row, usedSpace_row, LogicalDisk.shift, LogicalDisk.shift]
    omega

/-- A disk of `3.4975` GB with `0.5024` GB free: the roundings add two. -/
def shownMore : LogicalDisk := ⟨"E:", 3755412193, 539500000, by decide⟩

/-- A disk of `2.5024` GB with `1.4975` GB free: the roundings take two. -/
def shownLess : LogicalDisk := ⟨"F:", 2686983000, 1607928586, by decide⟩

/-- Both have the key 2; the first is shown with 4 and the second with 0. -/
theorem report_accurate_apart :
    ((row shownMore).usedSpace = 4 ∧ (row shownLess).usedSpace = 0) ∧
    ∃ sorted : List LogicalDisk, sorted.Perm [shownMore, shownLess] ∧
      List.Forall₂ Accurate sorted [row shownMore, row shownLess] ∧
      (sorted.Pairwise fun a b => a.used ≤ b.used + 2) ∧
      [row shownMore, row shownLess].Pairwise fun r r' => r.usedSpace ≤ r'.usedSpace + 4 :=
  ⟨by decide +kernel,
    report_accurate ⟨[shownMore, shownLess], ⟨List.Perm.refl _, by decide +kernel⟩, rfl⟩⟩

end Assignment.Wmi
