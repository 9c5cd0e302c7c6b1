import CvmMeasure.AzureSnp.MeasuredBoot
import CvmMeasure.Disk.GptLayout

/-! # What the measured partition table says

The data of the `EV_EFI_GPT_EVENT` hold the header and the entries one behind the other. They are taken apart
again by the header alone, so whoever knows the data knows the table, and with it the partition that the UKI
is read from.

* **`eventHeader`**, **`eventEntries`**: the table, read off the event data;
* **`readGpt_of_eventData`**: it is the table of the disk;
* **`pcr5_determines_esp`**: disks with one PCR 5 have one EFI System Partition, in one place. -/

namespace CvmMeasure

open Binary Python Hash

namespace Disk

/-- The header in the event data. -/
def eventHeader (data : Bytes) : Bytes := data.take 92

/-- The entries in the event data: as many as the number behind the header says, of the size the header
says. -/
def eventEntries (data : Bytes) : List Bytes :=
  (List.range (uintAt data 92 8)).map fun i =>
    slice (data.drop 100) (i * uintAt data 84 4) (i * uintAt data 84 4 + uintAt data 84 4)

variable {crc32 : Bytes → Nat} {image data : Bytes}

/-- Pieces of one length are cut again out of their concatenation. -/
theorem chunks_flatten {w : Nat} (hw : 0 < w) {xs : List Bytes} (h : ∀ x ∈ xs, x.length = w) :
    ((List.range xs.length).map fun i => slice xs.flatten (i * w) (i * w + w)) = xs := by
  have htotal : xs.flatten.length = xs.length * w := by
    rw [List.length_flatten, List.map_congr_left h, List.map_const', List.sum_replicate_nat]
  apply flatten_injective hw ?_ h
  · rw [← List.flatMap_def, flatMap_chunks, ← htotal, List.take_length]
  · intro piece hpiece
    obtain ⟨i, hi, rfl⟩ := List.mem_map.mp hpiece
    have hend := entry_end_le w (List.mem_range.mp hi)
    rw [length_slice_of_le (by omega), Nat.add_sub_cancel_left]

/-- A table has fewer entries than its number can count. -/
theorem length_nonEmptyEntries_lt (image : Bytes) : (nonEmptyEntries image).length < 256 ^ 8 := by
  have hcount : entryCount image < 256 ^ 4 := uintAt_lt image _ 4
  calc (nonEmptyEntries image).length ≤ (tableEntries image).length := List.length_filter_le _ _
    _ = entryCount image := by rw [tableEntries, List.length_map, List.length_range]
    _ < 256 ^ 8 := by omega

/-- **The event data hold the table of the disk.** -/
theorem readGpt_of_eventData (h : gptEventData crc32 image = .ok data) :
    readGpt crc32 image = .ok (eventHeader data, eventEntries data) := by
  have hexact := gptExact_of_eq_ok h
  simp only [gptEventData, bind_eq_ok, pure_eq_ok] at h
  obtain ⟨⟨header, entries⟩, hread, -⟩ := h
  obtain ⟨rfl, rfl, -⟩ := readGpt_eq_ok hread
  have hdata := hexact.data_eq
  have hheader : eventHeader data = gptHeader image := by
    rw [eventHeader, hdata, ← hexact.header_length, List.take_left]
  -- the two numbers the entries are cut by
  have hsize : uintAt data 84 4 = entrySize image := by
    have htake : data.take 92 = (gptHeader image).take 92 := by
      rw [← eventHeader, hheader, ← hexact.header_length, List.take_length]
    rw [uintAt, slice_congr htake (by decide), gptHeader, slice_slice _ (by decide)]
    rfl
  have hcount : uintAt data 92 8 = (nonEmptyEntries image).length := by
    have hat := hasAt_middle (gptHeader image) (leBytes 8 (nonEmptyEntries image).length)
      (nonEmptyEntries image).flatten
    rw [← hdata, hexact.header_length] at hat
    exact hat.uintAt_eq (length_nonEmptyEntries_lt image)
  have hrest : data.drop 100 = (nonEmptyEntries image).flatten := by
    have hfront : (gptHeader image ++ leBytes 8 (nonEmptyEntries image).length).length = 100 := by
      rw [List.length_append, hexact.header_length, leBytes_length]
    rw [hdata, ← List.append_assoc, ← hfront, List.drop_left]
  obtain ⟨k, hk⟩ := hexact.entrySize_eq
  have hpos : 0 < entrySize image := by
    rw [hk]
    exact Nat.mul_pos (by decide) (Nat.two_pow_pos k)
  have hentries : eventEntries data = nonEmptyEntries image := by
    rw [eventEntries, hsize, hcount, hrest]
    exact chunks_flatten hpos fun entry hentry =>
      hexact.entries_whole entry (List.mem_of_mem_filter hentry)
  rw [hread, hheader, hentries]

end Disk

open Disk AzureSnp

/-- The payloads of PCR 5. -/
def pcr5Payloads (gpt : Bytes) : List Bytes :=
  [leBytes 4 0, gpt, asciiBytes "Exit Boot Services Invocation",
    asciiBytes "Exit Boot Services Returned with Success"]

/-- **PCR 5 fixes the partition table.** Two disks that are measured and have one PCR 5 have, up to a failure of
the hash on the inputs evaluated, one partition table: the same header, the same entries in the same order, and
so the same EFI System Partition at the same offset, or none. -/
theorem pcr5_determines_esp {crc32 : Bytes → Nat} {sha256 : Bytes → Bytes}
    (hlen : ∀ x, (sha256 x).length = sha256Size) {image image' data data' : Bytes}
    (h : gptEventData crc32 image = .ok data) (h' : gptEventData crc32 image' = .ok data')
    (hsame : computePcr5 sha256 data = computePcr5 sha256 data') :
    UpTo sha256 zeroPcr
      (commitInputs sha256 zeroPcr (pcr5Payloads data) ++ commitInputs sha256 zeroPcr (pcr5Payloads data'))
      (readGpt crc32 image = readGpt crc32 image' ∧
        findEspOffset crc32 image = findEspOffset crc32 image') := by
  have hcommit : commit sha256 zeroPcr (pcr5Payloads data) = commit sha256 zeroPcr (pcr5Payloads data') :=
    hex_injective hsame
  refine (commit_binding hlen (List.length_replicate ..) hcommit).imp fun hpayloads => ?_
  simp only [pcr5Payloads, List.cons.injEq, and_true, true_and] at hpayloads
  have hread : readGpt crc32 image = readGpt crc32 image' := by
    rw [readGpt_of_eventData h, readGpt_of_eventData h', hpayloads]
  refine ⟨hread, ?_⟩
  rw [findEspOffset, findEspOffset, hread]

/-- The small disk, and one with another boot sector. -/
theorem pcr5_determines_esp_sample : ∃ data,
    gptEventData (fun _ => 7) sampleDisk = .ok data ∧
    UpTo (sampleHash 32) zeroPcr
      (commitInputs (sampleHash 32) zeroPcr (pcr5Payloads data)
        ++ commitInputs (sampleHash 32) zeroPcr (pcr5Payloads data))
      (readGpt (fun _ => 7) sampleDisk = readGpt (fun _ => 7) (List.replicate 512 0xFF ++ sampleDisk.drop 512) ∧
        findEspOffset (fun _ => 7) sampleDisk
          = findEspOffset (fun _ => 7) (List.replicate 512 0xFF ++ sampleDisk.drop 512)) := by
  obtain ⟨data, hdata⟩ : ∃ data, gptEventData (fun _ => 7) sampleDisk = .ok data :=
    exists_of_isOk (by decide +kernel)
  have hdata' : gptEventData (fun _ => 7) (List.replicate 512 0xFF ++ sampleDisk.drop 512) = .ok data := by
    rw [← hdata]
    decide +kernel
  exact ⟨data, hdata, pcr5_determines_esp (length_sampleHash 32) hdata hdata' rfl⟩

end CvmMeasure
