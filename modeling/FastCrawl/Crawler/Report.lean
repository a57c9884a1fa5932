import Mathlib.Data.List.MinMax
import FastCrawl.Library.Hexadecimal
import FastCrawl.Crawler.Downloads

namespace FastCrawl

/-! The report: a line for each record, and the records of the least and of the
greatest size. -/

/-- `operator<<` of a record, which does not tell whether the download has succeeded. -/
def UriRecord.print (rec : UriRecord) : Bytes :=
  rec.filename ++ bytes " size: " ++ Decimal.print rec.size.toNat ++
    bytes ", Adler32 checksum: " ++
    Decimal.pad 8 '0'.toUInt8 (Hexadecimal.print rec.adler32.toNat)

def endl : Bytes := ['\n'.toUInt8]

def reportLine (entry : Bytes × UriRecord) : Bytes :=
  bytes "URI \"" ++ entry.1 ++ bytes "\" stored in " ++ entry.2.print ++ endl

/-- The local variables of `report`, and what it has put out. -/
structure ReportLoop where
  minSizeRec : Option UriRecord := none
  maxSizeRec : Option UriRecord := none
  out : Bytes := []

def ReportLoop.body (loop : ReportLoop) (entry : Bytes × UriRecord) : ReportLoop where
  out := loop.out ++ reportLine entry
  minSizeRec :=
    match loop.minSizeRec with
    | none => some entry.2
    | some least => if least.size > entry.2.size then some entry.2 else some least
  maxSizeRec :=
    match loop.maxSizeRec with
    | none => some entry.2
    | some greatest => if greatest.size < entry.2.size then some entry.2 else some greatest

def sizeLine (title : Bytes) : Option UriRecord → Bytes
  | none => []
  | some rec => title ++ rec.print ++ endl

/-- `html_crawler::report`; `records` has the entries of the map in the order in which it
is iterated, which may be any. -/
def report (records : UriRecords) : Bytes :=
  let loop := records.foldl ReportLoop.body {}
  loop.out ++ sizeLine (bytes "Minimal size: ") loop.minSizeRec ++
    sizeLine (bytes "Maximal size: ") loop.maxSizeRec

section Loop

variable (records : UriRecords)

/-- The loop keeps the first of the least and the first of the greatest records. -/
theorem report_loop : records.foldl ReportLoop.body {} = {
    minSizeRec := (records.map Prod.snd).argmin fun rec => rec.size.toNat
    maxSizeRec := (records.map Prod.snd).argmax fun rec => rec.size.toNat
    out := (records.map reportLine).flatten } := by
  induction records using List.reverseRecOn with
  | nil => rfl
  | append_singleton records entry ih =>
      rw [List.foldl_append, ih, List.foldl_cons, List.foldl_nil, List.map_append,
        List.map_append, List.map_singleton, List.map_singleton, List.argmin_concat,
        List.argmax_concat, List.flatten_append, List.flatten_singleton, ReportLoop.body]
      congr 1
      · cases (records.map Prod.snd).argmin fun rec => rec.size.toNat with
        | none => rfl
        | some least => simp only [gt_iff_lt, UInt64.lt_iff_toNat_lt]
      · cases (records.map Prod.snd).argmax fun rec => rec.size.toNat with
        | none => rfl
        | some greatest => simp only [UInt64.lt_iff_toNat_lt]

/-- The records that the report calls minimal and maximal. -/
structure Extremes (records : List UriRecord) (least greatest : UriRecord) : Prop where
  isRecord : least ∈ records
  isRecord' : greatest ∈ records
  bounds : ∀ rec ∈ records, least.size ≤ rec.size ∧ rec.size ≤ greatest.size

/-- In whatever order the map is iterated, the report has a line for each record, followed
by a record of the least and one of the greatest size, if there are records. -/
theorem report_lines (records : UriRecords) {order : UriRecords} (iterated : order.Perm records) :
    (records = [] → report order = []) ∧
    (records ≠ [] → ∃ least greatest, Extremes (records.map Prod.snd) least greatest ∧
      report order = (order.map reportLine).flatten ++
        (bytes "Minimal size: " ++ least.print ++ endl) ++
        (bytes "Maximal size: " ++ greatest.print ++ endl)) := by
  have sameRecords : (order.map Prod.snd).Perm (records.map Prod.snd) := iterated.map _
  constructor
  · intro empty
    rw [empty, List.perm_nil] at iterated
    rw [iterated]
    rfl
  · intro nonempty
    have nonempty : order.map Prod.snd ≠ [] := by
      intro empty
      rw [List.map_eq_nil_iff] at empty
      rw [empty, List.nil_perm] at iterated
      exact nonempty iterated
    obtain ⟨least, isLeast⟩ :
        ∃ least, (order.map Prod.snd).argmin (fun rec => rec.size.toNat) = some least := by
      rw [← Option.ne_none_iff_exists']
      exact mt List.argmin_eq_none.mp nonempty
    obtain ⟨greatest, isGreatest⟩ :
        ∃ greatest, (order.map Prod.snd).argmax (fun rec => rec.size.toNat) = some greatest := by
      rw [← Option.ne_none_iff_exists']
      exact mt List.argmax_eq_none.mp nonempty
    refine ⟨least, greatest, ⟨?isRecord, ?isRecord', ?bounds⟩, ?output⟩
    case isRecord => exact sameRecords.mem_iff.mp (List.argmin_mem isLeast)
    case isRecord' => exact sameRecords.mem_iff.mp (List.argmax_mem isGreatest)
    case bounds =>
      intro rec member
      have inOrder := sameRecords.mem_iff.mpr member
      have smallest := List.le_of_mem_argmin inOrder isLeast
      have largest := List.le_of_mem_argmax inOrder isGreatest
      rw [UInt64.le_iff_toNat_le, UInt64.le_iff_toNat_le]
      exact ⟨smallest, largest⟩
    case output =>
      rw [report, report_loop, isLeast, isGreatest]
      rfl

theorem report_lines_three :
    let records : UriRecords := [(bytes "u", { size := 2 }), (bytes "v", {}), (bytes "w", {})]
    let order : UriRecords := [(bytes "w", {}), (bytes "u", { size := 2 }), (bytes "v", {})]
    (records = [] → report order = []) ∧
    (records ≠ [] → ∃ least greatest, Extremes (records.map Prod.snd) least greatest ∧
      report order = (order.map reportLine).flatten ++
        (bytes "Minimal size: " ++ least.print ++ endl) ++
        (bytes "Maximal size: " ++ greatest.print ++ endl)) := by
  exact report_lines _ (by decide)

end Loop

section ReadBack

theorem append_cons_inj_of_absent {α : Type} {first first' rest rest' : List α} {separator : α}
    (absent : separator ∉ rest) (absent' : separator ∉ rest')
    (same : first ++ separator :: rest = first' ++ separator :: rest') :
    first = first' ∧ rest = rest' := by
  rcases List.append_eq_append_iff.mp same with ⟨extra, left, right⟩ | ⟨extra, left, right⟩
  · cases extra with
    | nil => simp_all
    | cons head tail =>
        obtain ⟨rfl, rfl⟩ := List.cons.inj right
        simp at absent
  · cases extra with
    | nil => simp_all
    | cons head tail =>
        obtain ⟨rfl, rfl⟩ := List.cons.inj right
        simp at absent'

theorem space_absent (number : Nat) : ' '.toUInt8 ∉ Decimal.print number := by
  intro member
  have isDigit := Decimal.isDigit_of_mem_print member
  contradiction

/-- What the print of a record tells. -/
structure UriRecord.Alike (rec rec' : UriRecord) : Prop where
  filename : rec.filename = rec'.filename
  size : rec.size = rec'.size
  adler32 : rec.adler32 = rec'.adler32

theorem UriRecord.Alike.print {rec rec' : UriRecord} (alike : rec.Alike rec') :
    rec.print = rec'.print := by
  simp only [UriRecord.print, alike.filename, alike.size, alike.adler32]

theorem UriRecord.alike_of_print {rec rec' : UriRecord} (same : rec.print = rec'.print) :
    rec.Alike rec' := by
  have sumLength : ∀ rec : UriRecord,
      (Decimal.pad 8 '0'.toUInt8 (Hexadecimal.print rec.adler32.toNat)).length = 8 :=
    fun rec => Hexadecimal.length_pad_print (by omega) rec.adler32.toNat_lt
  obtain ⟨sameFront, sameSum⟩ := List.append_inj' same
    ((sumLength rec).trans (sumLength rec').symm)
  have split : ∀ rec : UriRecord,
      rec.filename ++ bytes " size: " ++ Decimal.print rec.size.toNat =
        (rec.filename ++ bytes " size:") ++ ' '.toUInt8 :: Decimal.print rec.size.toNat := by
    intro rec
    rw [List.append_assoc, List.append_assoc]
    rfl
  have sameFront := List.append_cancel_right sameFront
  rw [split, split] at sameFront
  obtain ⟨sameName, sameSize⟩ :=
    append_cons_inj_of_absent (space_absent _) (space_absent _) sameFront
  refine ⟨List.append_cancel_right sameName, UInt64.toNat_inj.mp ?_, UInt32.toNat_inj.mp ?_⟩
  · rw [← Decimal.read_print rec.size.toNat, sameSize, Decimal.read_print]
  · rw [← Hexadecimal.read_pad_print 8 rec.adler32.toNat, sameSum, Hexadecimal.read_pad_print]

theorem alike_of_reportLine {entry entry' : Bytes × UriRecord}
    (noSpace : ' '.toUInt8 ∉ entry.2.filename) (noSpace' : ' '.toUInt8 ∉ entry'.2.filename)
    (same : reportLine entry = reportLine entry') :
    entry.1 = entry'.1 ∧ entry.2.Alike entry'.2 := by
  -- A line is the print of a record with a longer name.
  let front (entry : Bytes × UriRecord) : Bytes :=
    bytes "URI \"" ++ entry.1 ++ bytes "\" stored in " ++ entry.2.filename
  have asPrint : ∀ entry : Bytes × UriRecord,
      reportLine entry = { entry.2 with filename := front entry }.print ++ endl := by
    intro entry
    simp only [reportLine, UriRecord.print, front, List.append_assoc]
  have split : ∀ entry : Bytes × UriRecord, front entry =
      (bytes "URI \"" ++ entry.1 ++ bytes "\" stored in") ++ ' '.toUInt8 :: entry.2.filename := by
    intro entry
    simp only [front, List.append_assoc]
    rfl
  rw [asPrint, asPrint] at same
  have alike := UriRecord.alike_of_print (List.append_cancel_right same)
  have sameFront : front entry = front entry' := alike.filename
  rw [split, split] at sameFront
  obtain ⟨sameUri, sameName⟩ := append_cons_inj_of_absent noSpace noSpace' sameFront
  have sameUri := List.append_cancel_left (List.append_cancel_right sameUri)
  exact ⟨sameUri, sameName, alike.size, alike.adler32⟩

/-- Lines are equal if and only if they tell of one URI and of records that differ in their
success at the most, whatever the URIs contain. -/
theorem reportLine_eq_iff {entry entry' : Bytes × UriRecord}
    (noSpace : ' '.toUInt8 ∉ entry.2.filename) (noSpace' : ' '.toUInt8 ∉ entry'.2.filename) :
    reportLine entry = reportLine entry' ↔ entry.1 = entry'.1 ∧ entry.2.Alike entry'.2 := by
  constructor
  · exact alike_of_reportLine noSpace noSpace'
  · intro same
    rw [reportLine, reportLine, same.1, same.2.print]

/-- Two URIs that look like the end of the text around them. -/
theorem reportLine_eq_iff_quotes :
    reportLine (bytes "a\" stored in ", { filename := bytes "./1_2", success := true }) =
        reportLine (bytes "a", { filename := bytes "./1_2" }) ↔
      bytes "a\" stored in " = bytes "a" ∧
        ({ filename := bytes "./1_2", success := true } : UriRecord).Alike
          { filename := bytes "./1_2" } := by
  exact reportLine_eq_iff (by decide) (by decide)

end ReadBack

end FastCrawl
