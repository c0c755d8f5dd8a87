import Concordance.Proofs.Checksums
import Concordance.Snapshot

/-! # Snapshot files

The files that are read are exactly those that payloads make, so every other file is refused. No
such file is a part of another, and no two of them differ within four bytes only.
-/
namespace Concordance

theorem Word.bytes_ofBytes (bytes : List UInt8) :
    Word.bytes bytes.length (ofBytes bytes) = bytes := by
  refine ofBytes_inj (length_bytes ..) ?_
  exact ofBytes_bytes _ _ (ofBytes_lt bytes)

namespace Snapshot
variable {file file' payload payload' : List UInt8}

theorem length_header (payload : List UInt8) : (header payload).length = headerLength := by
  simp [header, Word.length_bytes, magic, headerLength]

/-- The parts of a file that a payload makes. -/
theorem take_magic (payload : List UInt8) : (ofPayload payload).take 8 = magic := rfl

theorem take_checksum (payload : List UInt8) : ((ofPayload payload).drop 8).take 4 =
    Word.bytes 4 (Checksum.crc32 payload).toNat := by
  have hlen := Word.length_bytes 4 (Checksum.crc32 payload).toNat
  rw [ofPayload, header, List.append_assoc, List.append_assoc,
    List.drop_left' (show magic.length = 8 from rfl), List.take_left' hlen]

theorem take_length (payload : List UInt8) : ((ofPayload payload).drop 12).take 8 =
    Word.bytes 8 payload.length := by
  have hlen := Word.length_bytes 4 (Checksum.crc32 payload).toNat
  rw [ofPayload, header, List.append_assoc, List.drop_left' (by simp [hlen, magic]),
    List.take_left' (Word.length_bytes ..)]

theorem drop_header (payload : List UInt8) : (ofPayload payload).drop headerLength = payload :=
  List.drop_left' (length_header payload)

theorem toNat_crc32_lt (payload : List UInt8) :
    (Checksum.crc32 payload).toNat < Word.limit 4 := UInt32.toNat_lt _

theorem payload_ofPayload (h : payload.length < Word.limit 8) :
    Snapshot.payload (ofPayload payload) = .ok payload := by
  have hlen : ¬ (ofPayload payload).length < headerLength := by
    rw [ofPayload, List.length_append, length_header]
    omega
  simp only [Snapshot.payload, hlen, take_magic, take_checksum, take_length, drop_header,
    Word.ofBytes_bytes _ _ h, Word.ofBytes_bytes _ _ (toNat_crc32_lt payload), ne_eq,
    not_true_eq_false, or_self, if_false]

theorem parts_eq (file : List UInt8) : file.take 8 ++ ((file.drop 8).take 4 ++
    ((file.drop 12).take 8 ++ file.drop headerLength)) = file := by
  have hlength : (file.drop 12).take 8 ++ file.drop headerLength = file.drop 12 := by
    have h := List.take_append_drop 8 (file.drop 12)
    rwa [List.drop_drop] at h
  have hchecksum : (file.drop 8).take 4 ++ file.drop 12 = file.drop 8 := by
    have h := List.take_append_drop 4 (file.drop 8)
    rwa [List.drop_drop] at h
  rw [hlength, hchecksum, List.take_append_drop]

/-- A file that is not refused is one that its payload makes. -/
theorem payload_eq_ok (h : Snapshot.payload file = .ok payload) :
    payload.length < Word.limit 8 ∧ file = ofPayload payload := by
  unfold Snapshot.payload at h
  split at h
  · cases h
  · rename_i hhead
    obtain ⟨hlen, hmagic⟩ := not_or.1 hhead
    have hle := Nat.not_lt.1 hlen
    have hmagic := Classical.not_not.1 hmagic
    simp only [headerLength] at hle
    dsimp only at h
    split at h
    · cases h
    · rename_i hlength
      split at h
      · cases h
      · rename_i hchecksum
        have hlength := Classical.not_not.1 hlength
        have hchecksum := Classical.not_not.1 hchecksum
        cases h
        have hlt := Word.ofBytes_lt ((file.drop 12).take 8)
        have h8 : ((file.drop 12).take 8).length = 8 := by simp; omega
        have h4 : ((file.drop 8).take 4).length = 4 := by simp; omega
        have hsum := Word.bytes_ofBytes ((file.drop 8).take 4)
        have hcount := Word.bytes_ofBytes ((file.drop 12).take 8)
        rw [h8, ← hlength] at hlt hcount
        rw [h4, ← hchecksum] at hsum
        refine ⟨hlt, ?_⟩
        rw [ofPayload, header, hsum, hcount, ← hmagic, List.append_assoc, List.append_assoc]
        exact (parts_eq file).symm

theorem payload_cases (file : List UInt8) : (∃ payload, Snapshot.payload file = .ok payload) ∨
    ∃ message, Snapshot.payload file = .error (.snapshot message) := by
  unfold Snapshot.payload
  split
  · exact .inr ⟨_, rfl⟩
  · dsimp only
    split
    · exact .inr ⟨_, rfl⟩
    · split
      · exact .inr ⟨_, rfl⟩
      · exact .inl ⟨_, rfl⟩

/-! ## Damage -/

/-- What may become of a file: it is cut short, further bytes follow it, or at most four bytes that
follow one another are no longer what they were. -/
inductive Damaged : List UInt8 → List UInt8 → Prop
  | cut {kept lost : List UInt8} (h : lost ≠ []) : Damaged (kept ++ lost) kept
  | extended {file extra : List UInt8} (h : extra ≠ []) : Damaged file (file ++ extra)
  | changed {before old new after : List UInt8} (hlen : old.length = new.length)
    (hle : old.length ≤ 4) (h : old ≠ new) :
    Damaged (before ++ old ++ after) (before ++ new ++ after)

/-- No file is the beginning of another, as both give their lengths at the front. -/
theorem eq_nil_of_append {extra : List UInt8} (h : payload.length < Word.limit 8)
    (h' : payload'.length < Word.limit 8) (heq : ofPayload payload' = ofPayload payload ++ extra) :
    extra = [] := by
  have hlength : ((ofPayload payload').drop 12).take 8 = ((ofPayload payload).drop 12).take 8 := by
    have hlen := length_header payload
    have h12 : ((header payload).drop 12).length = 8 := by rw [List.length_drop, hlen]; rfl
    rw [heq, ofPayload, List.append_assoc, List.drop_append_of_le_length (by rw [hlen]; decide),
      List.drop_append_of_le_length (by rw [hlen]; decide), List.take_left' h12,
      List.take_left' h12]
  rw [take_length, take_length] at hlength
  have hpayload := congrArg Word.ofBytes hlength
  rw [Word.ofBytes_bytes _ _ h', Word.ofBytes_bytes _ _ h] at hpayload
  have htotal := congrArg List.length heq
  simp only [ofPayload, List.length_append, length_header] at htotal
  exact List.length_eq_zero_iff.1 (by omega)

/-- Files that differ within four bytes only have one payload: the bytes lie after the checksum,
which tells payloads apart, or before the payload. -/
theorem payload_eq_of_changed {before old new after : List UInt8}
    (hlen : old.length = new.length) (hle : old.length ≤ 4)
    (hold : ofPayload payload = before ++ old ++ after)
    (hnew : ofPayload payload' = before ++ new ++ after) : payload = payload' := by
  have hpayload := drop_header payload
  have hpayload' := drop_header payload'
  rw [hold, List.drop_append, List.drop_append, List.length_append] at hpayload
  rw [hnew, List.drop_append, List.drop_append, List.length_append, ← hlen] at hpayload'
  by_cases hbefore : 12 ≤ before.length
  · have hsum : (Checksum.crc32 payload).toNat = (Checksum.crc32 payload').toNat := by
      have hpart := take_checksum payload
      have hpart' := take_checksum payload'
      rw [hold, List.append_assoc, List.drop_append_of_le_length (by omega),
        List.take_append_of_le_length (by rw [List.length_drop]; omega)] at hpart
      rw [hnew, List.append_assoc, List.drop_append_of_le_length (by omega),
        List.take_append_of_le_length (by rw [List.length_drop]; omega)] at hpart'
      rw [← Word.ofBytes_bytes 4 _ (toNat_crc32_lt payload), ← hpart, hpart',
        Word.ofBytes_bytes 4 _ (toNat_crc32_lt payload')]
    have hcrc := UInt32.toNat_inj.1 hsum
    rw [← hpayload, ← hpayload'] at hcrc
    have hwindow := Checksum.eq_of_crc32 (by rw [List.length_drop, List.length_drop, hlen])
      (by rw [List.length_drop]; omega) hcrc
    rw [← hpayload, ← hpayload', hwindow]
  · have hold' : old.length ≤ headerLength - before.length := by
      simp only [headerLength]
      omega
    have hnew' : new.length ≤ headerLength - before.length := by
      rw [← hlen]
      exact hold'
    rw [List.drop_eq_nil_of_le hold'] at hpayload
    rw [List.drop_eq_nil_of_le hnew'] at hpayload'
    exact hpayload.symm.trans hpayload'

/-- A damaged file is no other file. -/
theorem not_damaged (h : payload.length < Word.limit 8) (h' : payload'.length < Word.limit 8) :
    ¬ Damaged (ofPayload payload) (ofPayload payload') := by
  generalize hfile : ofPayload payload = file
  generalize hfile' : ofPayload payload' = file'
  intro hdamage
  cases hdamage with
  | cut hlost => exact hlost (eq_nil_of_append h' h (by rw [hfile, hfile']))
  | extended hextra => exact hextra (eq_nil_of_append h h' (by rw [hfile, hfile']))
  | changed hlen hle hne =>
    have heq := payload_eq_of_changed hlen hle hfile hfile'
    rw [heq, hfile'] at hfile
    exact hne (List.append_cancel_left (List.append_cancel_right hfile)).symm

theorem load_eq_error (h : payload.length < Word.limit 8)
    (hdamage : Damaged (ofPayload payload) file) :
    ∃ message, load file = .error (.snapshot message) := by
  rcases payload_cases file with ⟨payload', hok⟩ | ⟨message, herror⟩
  · obtain ⟨h', rfl⟩ := payload_eq_ok hok
    exact absurd hdamage (not_damaged h h')
  · exact ⟨message, by rw [load, herror]; rfl⟩

end Snapshot
end Concordance
