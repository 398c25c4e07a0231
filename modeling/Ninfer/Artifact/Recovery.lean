import Ninfer.Artifact.Rewriting

/-!
# Crashes during the migration

Runs of the migration that are cut short after any of their writes, and started again on what they
left. Every disk such a history leads to is sound, or its file is the original one beside a backup
that was cut short. From a sound disk a run ends with the rewritten file, or with the original one
if it is interrupted; before each of its writes the disk is sound, unless the write extends the
backup.

## Main definitions

* `Sound`, `Torn`: the disks a history leads to
* `Attempt`, `Tool.replay`: a history of runs
* `Tool.SparesBackup`: no run is cut short while the backup is being written

## Main results

* `migrate_ensures`: a run from a sound disk
* `migrate_torn`: a run beside a backup that was cut short
-/

namespace Ninfer.Artifact.Tools

open Crash

section Writes

variable {disk : Disk} {position : Nat} {data : List UInt8}

theorem writeBytes_cons (position : Nat) (byte : UInt8) (data : List UInt8) :
    writeBytes position (byte :: data) =
      .writeFile position byte :: writeBytes (position + 1) data := by
  unfold writeBytes
  rw [List.mapIdx_cons]
  congr 2
  funext i byte
  rw [Nat.add_assoc, Nat.add_comm 1 i]

theorem writeBytes_take (position k : Nat) (data : List UInt8) :
    (writeBytes position data).take k = writeBytes position (data.take k) := by
  induction data generalizing position k with
  | nil =>
    rw [List.take_nil]
    exact List.take_nil
  | cons byte data ih =>
    cases k with
    | zero => rfl
    | succ k => rw [writeBytes_cons, List.take_succ_cons, List.take_succ_cons, writeBytes_cons, ih]

theorem applyAll_cons {w : Write} {ws : List Write} :
    applyAll (w :: ws) disk = applyAll ws (w.apply disk) := rfl

/-- Writing bytes into the file overwrites a stretch of it. -/
theorem applyAll_writeBytes (h : position + data.length ≤ disk.file.length) :
    applyAll (writeBytes position data) disk =
      ⟨splice disk.file position data, disk.backup⟩ := by
  induction data generalizing disk position with
  | nil =>
    rw [splice_nil]
    rfl
  | cons byte data ih =>
    rw [List.length_cons] at h
    rw [writeBytes_cons, applyAll_cons, ih (by
      show _ ≤ (disk.file.set position byte).length
      rw [List.length_set]
      omega)]
    show Disk.mk (splice (disk.file.set position byte) (position + 1) data) disk.backup = _
    rw [splice_cons (by omega)]

/-- The disks before the writes of bytes into the file. -/
theorem before_writeBytes {B : Write → Disk → Prop}
    (hfits : position + data.length ≤ disk.file.length)
    (h : ∀ k w, k < data.length → (∀ byte, w ≠ .appendBackup byte) →
      B w ⟨splice disk.file position (data.take k), disk.backup⟩) :
    ∀ k w, (writeBytes position data)[k]? = some w →
      B w (applyAll ((writeBytes position data).take k) disk) := by
  intro k w hw
  unfold writeBytes at hw
  rw [List.getElem?_mapIdx] at hw
  obtain ⟨byte, hbyte, rfl⟩ := Option.map_eq_some_iff.mp hw
  obtain ⟨hk, -⟩ := List.getElem?_eq_some_iff.mp hbyte
  rw [writeBytes_take, applyAll_writeBytes (by rw [List.length_take]; omega)]
  exact h k _ hk fun _ => nofun

/-- Appending bytes to the backup. -/
theorem applyAll_appendBackup {file content : List UInt8} :
    applyAll (data.map Write.appendBackup) (Disk.mk file (some content)) =
      ⟨file, some (content ++ data)⟩ := by
  induction data generalizing content with
  | nil =>
    rw [List.append_nil]
    rfl
  | cons byte data ih =>
    rw [List.map_cons, applyAll_cons]
    show applyAll (data.map Write.appendBackup) (Disk.mk file (some (content ++ [byte]))) = _
    rw [ih, List.append_assoc]
    rfl

end Writes

variable (tool : Tool) (v1 : List UInt8) (plan : Plan)

/-- The metadata of a file. -/
def metadata : List UInt8 := v1.take plan.directory.payloadOffset

/-- A file with the length and the payload of the original. -/
def KeepsPayload (file : List UInt8) : Prop :=
  file.length = v1.length ∧
    file.drop plan.directory.payloadOffset = v1.drop plan.directory.payloadOffset

/-- The disks from which a run completes: the original file alone, a file that is being rewritten
or restored beside the complete backup, and the rewritten file. A file in between does not pass
for version 2. -/
inductive Sound : Disk → Prop
  | original : Sound ⟨v1, none⟩
  | guarded (file : List UInt8) (payload : KeepsPayload v1 plan file)
      (old : file.take 8 = v1Magic) : Sound ⟨file, some (metadata v1 plan)⟩
  | broken (file : List UInt8) (payload : KeepsPayload v1 plan file) (new : file.take 8 = magic)
      (fails : ∃ what, openArtifact tool.loads file = .error (.artifactError what)) :
      Sound ⟨file, some (metadata v1 plan)⟩
  | complete (fits : plan.encoded.length < U64.size) (backup : Option (List UInt8))
      (kept : ∀ data ∈ backup, data = metadata v1 plan) : Sound ⟨migrated v1 plan, backup⟩

/-- The original file beside a strict part of the backup. -/
def Torn (disk : Disk) : Prop :=
  ∃ k, k < plan.directory.payloadOffset ∧ disk = ⟨v1, some (v1.take k)⟩

/-- What holds before a write. -/
def Before : Write → Disk → Prop
  | .appendBackup _, disk => Torn v1 plan disk
  | _, disk => Sound tool v1 plan disk

variable {tool v1 plan}

theorem before_of_sound {w : Write} {disk : Disk} (h : Sound tool v1 plan disk)
    (hw : ∀ byte, w ≠ .appendBackup byte) : Before tool v1 plan w disk := by
  cases w with
  | appendBackup byte => exact absurd rfl (hw byte)
  | createBackup => exact h
  | writeFile position byte => exact h
  | unlinkBackup => exact h

theorem take_metadata {n : Nat} (hn : n ≤ plan.directory.payloadOffset) :
    (metadata v1 plan).take n = v1.take n := by
  unfold metadata
  rw [List.take_take, Nat.min_eq_left hn]

theorem metadata_append : metadata v1 plan ++ v1.drop plan.directory.payloadOffset = v1 :=
  List.take_append_drop _ _

namespace Prepared

theorem length_metadata (h : Prepared tool v1 plan) :
    (metadata v1 plan).length = plan.directory.payloadOffset :=
  List.length_take_of_le h.offset_le

theorem sixteen_le (h : Prepared tool v1 plan) : 16 ≤ plan.directory.payloadOffset := by
  have := h.encoded_le
  omega

theorem keepsPayload_migrated (h : Prepared tool v1 plan) :
    KeepsPayload v1 plan (migrated v1 plan) := by
  refine ⟨h.length_migrated, ?_⟩
  unfold migrated
  rw [← List.append_assoc]
  apply List.drop_left'
  rw [List.length_append]
  exact h.length_body

end Prepared

section Restore

/-- The first seven bytes of the two magics are the same. -/
theorem take_seven {file : List UInt8} (h : file.take 8 = v1Magic ∨ file.take 8 = magic) :
    file.take 7 = v1Magic.take 7 := by
  have htake : file.take 7 = (file.take 8).take 7 := by rw [List.take_take]; rfl
  rcases h with h | h
  · rw [htake, h]
  · rw [htake, h]
    rfl

theorem migrated_magic : (migrated v1 plan).take 8 = magic := rfl

/-- A sound disk with a backup has the complete one, and the payload of the original. -/
theorem Sound.backup (h : Prepared tool v1 plan) {file data : List UInt8}
    (hsound : Sound tool v1 plan ⟨file, some data⟩) :
    data = metadata v1 plan ∧ KeepsPayload v1 plan file ∧ file.take 7 = v1Magic.take 7 := by
  cases hsound with
  | guarded _ payload old => exact ⟨rfl, payload, take_seven (.inl old)⟩
  | broken _ payload new fails => exact ⟨rfl, payload, take_seven (.inr new)⟩
  | complete fits _ kept =>
    exact ⟨kept data rfl, h.keepsPayload_migrated, take_seven (.inr migrated_magic)⟩

/-- The backup passes the checks of the restore. -/
theorem checkBackup_metadata (h : Prepared tool v1 plan) :
    checkBackup (metadata v1 plan) = .ok () := by
  have hlength := h.length_metadata
  have hle := h.sixteen_le
  have hword : ((metadata v1 plan).drop 8).take 8 = (v1.drop 8).take 8 := by
    rw [List.take_drop, take_metadata (by omega), List.take_drop]
  apply ensure_bind_eq_ok.mpr
  refine ⟨⟨by unfold prefixBytes; omega, ?_⟩, ?_⟩
  · rw [take_metadata (by omega)]
    exact h.magic
  · dsimp only
    rw [hword, hlength]
    exact if_pos ⟨h.positive, h.payloadOffset.symm⟩

/-- A part of the backup does not. -/
theorem checkBackup_torn (h : Prepared tool v1 plan) {k : Nat}
    (hk : k < plan.directory.payloadOffset) :
    checkBackup (v1.take k) = .error (.migrationError "invalid migration recovery file") := by
  have hlength : (v1.take k).length = k :=
    List.length_take_of_le (Nat.le_of_lt (Nat.lt_of_lt_of_le hk h.offset_le))
  unfold checkBackup
  by_cases hhead : prefixBytes ≤ (v1.take k).length ∧ (v1.take k).take 8 = v1Magic
  swap
  · exact ensure_bind_of_not hhead
  have hsixteen : 16 ≤ k := hlength ▸ hhead.1
  -- the length the prefix declares is that of the complete backup
  have hword : ((v1.take k).drop 8).take 8 = (v1.drop 8).take 8 := by
    rw [List.take_drop, List.take_take, Nat.min_eq_left (by omega), List.take_drop]
  have hoffset := h.payloadOffset
  unfold ensure
  dsimp only
  rw [if_pos hhead, ok_bind, hword, hlength]
  apply if_neg
  rintro ⟨-, hdeclared⟩
  unfold alignUp prefixBytes payloadAlignment at hdeclared
  omega

/-- The restore brings the original back, and the disk is sound all the way. -/
theorem restoreBackup_ensures (h : Prepared tool v1 plan) {file : List UInt8}
    (hsound : Sound tool v1 plan ⟨file, some (metadata v1 plan)⟩) :
    restoreBackup.Ensures ⟨file, some (metadata v1 plan)⟩ (Before tool v1 plan)
      (fun _ disk => disk = ⟨v1, none⟩) fun _ _ => False := by
  obtain ⟨-, ⟨hlength, hdrop⟩, hseven⟩ := hsound.backup h
  have hmetadata := h.length_metadata
  have hle := h.offset_le
  have hfits : 0 + (metadata v1 plan).length ≤ file.length := by omega
  unfold restoreBackup
  apply Program.ensures_bind
  apply Program.ensures_read
  swap
  · exact fun e he => nomatch he
  intro data hdata
  cases hdata
  apply Program.ensures_bind
  apply Program.ensures_read
  swap
  · intro e he
    rw [checkBackup_metadata h] at he
    cases he
  intro _ _
  apply Program.ensures_bind
  apply Program.ensures_write
  · refine before_writeBytes ?_ ?_
    · exact hfits
    intro k w hk hw
    apply before_of_sound _ hw
    by_cases hseven' : k ≤ 7
    · -- the bytes written so far are those that stood there
      rw [splice_self]
      · exact hsound
      · have hlt : k ≤ plan.directory.payloadOffset := by omega
        have hcount : ((metadata v1 plan).take k).length = k := by
          rw [List.length_take]
          omega
        have hsame : file.take k = v1.take k := by
          have hv1 : v1.take 7 = v1Magic.take 7 := take_seven (.inl h.magic)
          rw [← Nat.min_eq_left hseven', ← List.take_take, hseven, ← hv1, List.take_take]
        rw [hcount, Nat.zero_add, List.take_zero, List.nil_append, hsame, take_metadata hlt]
    -- From the eighth byte on the original magic stands, and the backup is still whole.
    · have hcount : ((metadata v1 plan).take k).length = k := by
        rw [List.length_take]
        omega
      apply Sound.guarded
      · dsimp only
        refine ⟨?_, ?_⟩
        · rw [length_splice (by omega), hlength]
        · rw [drop_splice (by omega) (by omega), hdrop]
      · rw [splice_zero, take_metadata (by omega), List.take_append_of_le_length, List.take_take,
          Nat.min_eq_left (by omega)]
        · exact h.magic
        · rw [List.length_take]
          omega
  · rw [applyAll_writeBytes hfits]
    dsimp only
    rw [splice_zero, hmetadata, hdrop, metadata_append]
    apply Program.ensures_write
    · intro k w hw
      cases k with
      | zero =>
        cases hw
        exact Sound.guarded v1 ⟨rfl, rfl⟩ h.magic
      | succ k => cases hw
    · rfl

end Restore

section Rewrite

/-- Writing the backup beside the original file. -/
theorem writeBackup_ensures (h : Prepared tool v1 plan) :
    (writeBackup (metadata v1 plan)).Ensures ⟨v1, none⟩ (Before tool v1 plan)
      (fun _ disk => disk = ⟨v1, some (metadata v1 plan)⟩) fun _ _ => False := by
  have hmetadata := h.length_metadata
  unfold writeBackup
  apply Program.ensures_bind
  apply Program.ensures_read
  swap
  · exact fun e he => nomatch he
  intro _ _
  apply Program.ensures_write
  · intro k w hw
    cases k with
    | zero =>
      cases hw
      exact Sound.original
    | succ k =>
      rw [List.getElem?_cons_succ, List.getElem?_map] at hw
      obtain ⟨byte, hbyte, rfl⟩ := Option.map_eq_some_iff.mp hw
      obtain ⟨hk, -⟩ := List.getElem?_eq_some_iff.mp hbyte
      refine ⟨k, by omega, ?_⟩
      rw [List.take_succ_cons, applyAll_cons, List.map_take.symm]
      show applyAll _ (Disk.mk v1 (some [])) = _
      rw [applyAll_appendBackup, List.nil_append, take_metadata (by omega)]
  · rw [applyAll_cons]
    show applyAll _ (Disk.mk v1 (some [])) = _
    rw [applyAll_appendBackup, List.nil_append]

/-- The file while the directory is being written. -/
theorem sound_body (h : Prepared tool v1 plan) (k : Nat) :
    Sound tool v1 plan ⟨splice v1 16 (plan.body.take k), some (metadata v1 plan)⟩ := by
  have hbody := h.length_body
  have hle := h.offset_le
  have hcount : (plan.body.take k).length ≤ plan.body.length := List.length_take_le' _ _
  apply Sound.guarded
  · exact ⟨length_splice (by omega), drop_splice (by omega) (by omega)⟩
  · rw [take_splice (by omega) (by omega)]
    exact h.magic

/-- The file with the directory written. -/
theorem splice_body (h : Prepared tool v1 plan) : splice v1 16 plan.body =
    v1Magic ++ ((v1.drop 8).take 8 ++ (plan.body ++ v1.drop plan.directory.payloadOffset)) := by
  have hsplit : v1.take 16 = v1Magic ++ (v1.drop 8).take 8 := by
    have hparts := List.take_append_drop 8 (v1.take 16)
    rw [List.take_take, ← List.take_drop (i := 8)] at hparts
    rw [← h.magic, ← hparts]
    rfl
  unfold splice
  rw [h.length_body, hsplit, List.append_assoc]

/-- The file while the prefix is being written: the magic is still the old one, or a length word
that is not the right one keeps the file from opening, or the file is complete. -/
theorem sound_header (h : Prepared tool v1 plan) (hreads : ReadsDirectory tool.loads plan) (k : Nat) :
    Sound tool v1 plan
      ⟨splice (splice v1 16 plan.body) 0 (plan.header.take k), some (metadata v1 plan)⟩ := by
  have hbody := h.length_body
  have hle := h.offset_le
  have hheader : plan.header.length = 16 := rfl
  have hcount : (plan.header.take k).length = min k 16 := by rw [List.length_take, hheader]
  have hword : ((v1.drop 8).take 8).length = 8 := by
    rw [List.length_take, List.length_drop]
    omega
  have hlength : (splice v1 16 plan.body).length = v1.length := length_splice (by omega)
  have hpayload : KeepsPayload v1 plan
      (splice (splice v1 16 plan.body) 0 (plan.header.take k)) := by
    refine ⟨?_, ?_⟩
    · rw [length_splice (by omega), hlength]
    · rw [drop_splice (by omega) (by omega), drop_splice (by omega) (by omega)]
  by_cases hk : k < 8
  · -- the last byte of the magic is not written yet
    apply Sound.guarded _ hpayload
    rw [splice_zero, hcount, Nat.min_eq_left (by omega), splice_body h]
    have hsame : plan.header.take k = v1Magic.take k := by
      show (magic ++ packWord plan.encoded.length).take k = _
      rw [List.take_append_of_le_length (by show k ≤ 8; omega)]
      have hseven : magic.take 7 = v1Magic.take 7 := rfl
      rw [← Nat.min_eq_left (show k ≤ 7 by omega), ← List.take_take, hseven, List.take_take]
    rw [hsame, List.drop_append_of_le_length (by show k ≤ 8; omega), ← List.append_assoc,
      List.take_append_drop]
    exact List.take_left' rfl
  · obtain ⟨i, rfl⟩ := Nat.exists_eq_add_of_le (Nat.le_of_not_lt hk)
    -- the length word is a mixture of the new one and the old one
    have hmixed : splice (splice v1 16 plan.body) 0 (plan.header.take (8 + i)) =
        magic ++ (((packWord plan.encoded.length).take i ++ ((v1.drop 8).take 8).drop i) ++
          (plan.body ++ v1.drop plan.directory.payloadOffset)) := by
      have hnew : plan.header.take (8 + i) = magic ++ (packWord plan.encoded.length).take i := by
        rw [show 8 + i = magic.length + i from rfl]
        exact List.take_length_add_append i
      have hold : ((v1.drop 8).take 8).drop (min i 8) = ((v1.drop 8).take 8).drop i := by
        rcases Nat.le_total i 8 with hi | hi
        · rw [Nat.min_eq_left hi]
        · rw [Nat.min_eq_right hi, List.drop_of_length_le (by omega),
            List.drop_of_length_le (by omega)]
      rw [splice_zero, hcount, splice_body h, hnew, show min (8 + i) 16 = 8 + min i 8 by omega,
        ← List.drop_drop, List.drop_left' (show v1Magic.length = 8 from rfl),
        List.drop_append_of_le_length (by omega), hold]
      simp only [List.append_assoc]
    have hlength' : ((packWord plan.encoded.length).take i ++ ((v1.drop 8).take 8).drop i).length =
        8 := by
      rw [List.length_append, List.length_take, List.length_drop, length_packWord, hword]
      omega
    rw [hmixed] at hpayload ⊢
    by_cases hvalue : unpackWord ((packWord plan.encoded.length).take i ++
        ((v1.drop 8).take 8).drop i) = plan.encoded.length
    · have hlt := unpackWord_lt hlength'
      rw [hvalue] at hlt
      have hwhole : (packWord plan.encoded.length).take i ++ ((v1.drop 8).take 8).drop i =
          packWord plan.encoded.length := by
        apply unpackWord_inj hlength'
        rw [hvalue, unpackWord_packWord hlt]
      rw [hwhole, ← List.append_assoc]
      exact Sound.complete hlt _ fun data hdata => (Option.some.inj hdata).symm
    · exact Sound.broken _ hpayload rfl (openArtifact_otherWord h hreads hlength' hvalue)

theorem rewriteWrites_eq (plan : Plan) :
    rewriteWrites plan = writeBytes 16 plan.body ++ writeBytes 0 plan.header := rfl

theorem length_writeBytes (position : Nat) (data : List UInt8) :
    (writeBytes position data).length = data.length := List.length_mapIdx

/-- The writes of the directory. -/
theorem applyAll_body (h : Prepared tool v1 plan) {data : List UInt8}
    (hdata : data.length ≤ plan.body.length) (backup : Option (List UInt8)) :
    applyAll (writeBytes 16 data) (Disk.mk v1 backup) = ⟨splice v1 16 data, backup⟩ := by
  have hbody := h.length_body
  have hle := h.offset_le
  apply applyAll_writeBytes
  dsimp only
  omega

/-- The writes of the prefix. -/
theorem applyAll_header (h : Prepared tool v1 plan) {data : List UInt8} (hdata : data.length ≤ 16)
    (backup : Option (List UInt8)) :
    applyAll (writeBytes 0 data) (Disk.mk (splice v1 16 plan.body) backup) =
      ⟨splice (splice v1 16 plan.body) 0 data, backup⟩ := by
  have hbody := h.length_body
  have hle := h.offset_le
  apply applyAll_writeBytes
  dsimp only
  rw [length_splice (by omega)]
  omega

/-- Wherever the writes of the metadata stop, the disk is sound. -/
theorem sound_rewriteWrites (h : Prepared tool v1 plan) (hreads : ReadsDirectory tool.loads plan)
    (n : Nat) : ∃ file, applyAll ((rewriteWrites plan).take n)
        (Disk.mk v1 (some (metadata v1 plan))) = ⟨file, some (metadata v1 plan)⟩ ∧
      Sound tool v1 plan ⟨file, some (metadata v1 plan)⟩ := by
  rw [rewriteWrites_eq, List.take_append, length_writeBytes, applyAll_append, writeBytes_take,
    writeBytes_take, applyAll_body h (List.length_take_le' _ _)]
  rcases Nat.le_total n plan.body.length with hn | hn
  · -- nothing of the prefix is written
    rw [Nat.sub_eq_zero_of_le hn, List.take_zero]
    exact ⟨_, rfl, sound_body h n⟩
  · rw [List.take_of_length_le hn, applyAll_header h (List.length_take_le' _ _)]
    exact ⟨_, rfl, sound_header h hreads _⟩

/-- The writes of the metadata, all of them. -/
theorem applyAll_rewriteWrites (h : Prepared tool v1 plan) :
    applyAll (rewriteWrites plan) (Disk.mk v1 (some (metadata v1 plan))) =
      ⟨migrated v1 plan, some (metadata v1 plan)⟩ := by
  have hle := h.offset_le
  have hsixteen := h.sixteen_le
  have hword : ((v1.drop 8).take 8).length = 8 := by
    rw [List.length_take, List.length_drop]
    omega
  rw [rewriteWrites_eq, applyAll_append, applyAll_body h (Nat.le_refl _),
    applyAll_header h (show plan.header.length ≤ 16 from Nat.le_refl 16), splice_zero, splice_body h,
    show plan.header.length = 8 + 8 from rfl, ← List.drop_drop,
    List.drop_left' (show v1Magic.length = 8 from rfl), List.drop_left' hword]
  rfl

theorem rewriteWrites_ne_appendBackup {w : Write} (h : w ∈ rewriteWrites plan) (byte : UInt8) :
    w ≠ .appendBackup byte := by
  rintro rfl
  rcases List.mem_append.mp h with h | h
  · obtain ⟨i, hi, hw⟩ := List.mem_mapIdx.mp h
    cases hw
  · obtain ⟨i, hi, hw⟩ := List.mem_mapIdx.mp h
    cases hw

/-- Some of the writes of the metadata. -/
theorem write_rewriteWrites_ensures (h : Prepared tool v1 plan)
    (hreads : ReadsDirectory tool.loads plan) {n : Nat} {Q : Unit → Disk → Prop}
    {E : PyException → Disk → Prop}
    (hQ : Q () (applyAll ((rewriteWrites plan).take n) (Disk.mk v1 (some (metadata v1 plan))))) :
    Program.Ensures (Program.write ((rewriteWrites plan).take n))
      (Disk.mk v1 (some (metadata v1 plan))) (Before tool v1 plan) Q E := by
  apply Program.ensures_write _ hQ
  intro k w hw
  have hmem : w ∈ rewriteWrites plan := List.mem_of_mem_take (List.mem_of_getElem? hw)
  obtain ⟨file, hfile, hsound⟩ := sound_rewriteWrites h hreads (min k n)
  rw [List.take_take, hfile]
  exact before_of_sound hsound (rewriteWrites_ne_appendBackup hmem)

/-- The rewrite ends with the rewritten file, or throws on a sound disk: only when an exception
comes from outside, or the directory is too long for its length word. -/
theorem rewrite_ensures (h : Prepared tool v1 plan) (hreads : ReadsDirectory tool.loads plan)
    (fault : Option Nat) :
    (rewrite plan fault).Ensures ⟨v1, some (metadata v1 plan)⟩ (Before tool v1 plan)
      (fun _ disk => plan.encoded.length < U64.size ∧
        disk = ⟨migrated v1 plan, some (metadata v1 plan)⟩)
      (fun _ disk => (∃ file, disk = ⟨file, some (metadata v1 plan)⟩ ∧ Sound tool v1 plan disk) ∧
        (fault = none → ¬plan.encoded.length < U64.size)) := by
  unfold rewrite
  cases fault with
  | none =>
    apply Program.ensures_bind
    apply Program.ensures_read
    · intro _ hfits
      have hfits : plan.encoded.length < U64.size := by
        unfold ensure at hfits
        split_ifs at hfits with hlt
        exact hlt
      have hall : rewriteWrites plan = (rewriteWrites plan).take (rewriteWrites plan).length :=
        List.take_length.symm
      rw [hall]
      apply write_rewriteWrites_ensures h hreads
      rw [← hall]
      exact ⟨hfits, applyAll_rewriteWrites h⟩
    · intro e he
      refine ⟨⟨v1, rfl, Sound.guarded v1 ⟨rfl, rfl⟩ h.magic⟩, ?_⟩
      intro _ hlt
      unfold ensure at he
      rw [if_pos hlt] at he
      cases he
  | some n =>
    apply Program.ensures_bind
    apply write_rewriteWrites_ensures h hreads
    apply Program.ensures_read
    · exact fun a ha => nomatch ha
    · intro e he
      obtain ⟨file, hfile, hsound⟩ := sound_rewriteWrites h hreads n
      rw [hfile]
      exact ⟨⟨file, rfl, hsound⟩, fun hnone => nomatch hnone⟩

/-- The rewritten file passes the verification. -/
theorem verify_ensures (h : Prepared tool v1 plan) (hreads : ReadsDirectory tool.loads plan)
    (hfits : plan.encoded.length < U64.size) {disk : Disk} (hfile : disk.file = migrated v1 plan)
    {B : Write → Disk → Prop} :
    (tool.verify plan).Ensures disk B (fun _ disk' => disk' = disk) fun _ _ => False := by
  have hverify : (do
      let artifact ← openArtifact tool.loads disk.file
      ensure (artifact.identity = plan.candidate.identity)
        (.migrationError "migrated identity is not the expected one")
      ensure (artifact.objects = plan.planned)
        (.migrationError "migrated object directory changed")
      ensure (artifact.payloadOffset = plan.directory.payloadOffset)
        (.migrationError "migrated payload offset changed")
      ensure (artifact.fileBytes = plan.directory.fileBytes)
        (.migrationError "migrated file length changed")) = Except.ok () := by
    rw [hfile, openArtifact_migrated h hreads hfits, ok_bind]
    apply ensure_bind_eq_ok.mpr
    refine ⟨rfl, ?_⟩
    apply ensure_bind_eq_ok.mpr
    refine ⟨rfl, ?_⟩
    apply ensure_bind_eq_ok.mpr
    exact ⟨rfl, if_pos h.fileBytes.symm⟩
  unfold Tool.verify
  apply Program.ensures_read
  · exact fun _ _ => rfl
  · intro e he
    rw [hverify] at he
    cases he

/-- A run from the original file: it ends with the rewritten file and no backup, or throws and
leaves the original. -/
theorem convert_ensures (hplan : tool.prepare v1 = .ok plan)
    (hreads : ReadsDirectory tool.loads plan) (fault : Option Nat) :
    (tool.convert fault).Ensures ⟨v1, none⟩ (Before tool v1 plan)
      (fun identity disk => identity = plan.candidate.identity ∧
        plan.encoded.length < U64.size ∧ disk = ⟨migrated v1 plan, none⟩)
      (fun _ disk => disk = ⟨v1, none⟩ ∧ (fault = none → ¬plan.encoded.length < U64.size)) := by
  have h := prepare_spec hplan
  unfold Tool.convert
  apply Program.ensures_bind
  apply Program.ensures_read
  swap
  · intro e he
    dsimp only at he
    rw [hplan] at he
    cases he
  intro plan' hplan'
  dsimp only at hplan'
  rw [hplan] at hplan'
  cases hplan'
  apply Program.ensures_bind
  apply Program.ensures_read
  swap
  · exact fun e he => nomatch he
  intro data hdata
  cases hdata
  apply Program.ensures_bind
  apply (writeBackup_ensures h).imp (fun _ _ hbefore => hbefore) _ fun _ _ hfalse => hfalse.elim
  rintro _ _ rfl
  apply Program.ensures_bind
  apply Program.ensures_handle
  apply Program.ensures_bind
  apply (rewrite_ensures h hreads fault).imp (fun _ _ hbefore => hbefore)
  · rintro _ _ ⟨hfits, rfl⟩
    apply (verify_ensures h hreads hfits rfl).imp (fun _ _ hbefore => hbefore) _
      fun _ _ hfalse => hfalse.elim
    rintro _ _ rfl
    apply Program.ensures_bind
    apply Program.ensures_write
    · intro k w hw
      cases k with
      | zero =>
        cases hw
        exact Sound.complete hfits _ fun data hdata => (Option.some.inj hdata).symm
      | succ k => cases hw
    · apply Program.ensures_pure
      exact ⟨rfl, hfits, rfl⟩
  · rintro e _ ⟨⟨file, rfl, hsound⟩, hfault⟩
    apply Program.ensures_bind
    apply (restoreBackup_ensures h hsound).imp (fun _ _ hbefore => hbefore) _
      fun _ _ hfalse => hfalse.elim
    rintro _ _ rfl
    apply Program.ensures_read
    · exact fun a ha => nomatch ha
    · exact fun _ _ => ⟨rfl, hfault⟩

end Rewrite

section Run

/-- What a run that ended says: the identity of the plan, the rewritten file and no backup. -/
def Migrated (v1 : List UInt8) (plan : Plan) (identity : ArtifactIdentity) (disk : Disk) : Prop :=
  identity = plan.candidate.identity ∧ plan.encoded.length < U64.size ∧
    disk = ⟨migrated v1 plan, none⟩

theorem alreadyV2_old {file : List UInt8} (h : file.take 8 = v1Magic) :
    tool.alreadyV2 file = .ok none := by
  unfold Tool.alreadyV2
  rw [h]
  rfl

theorem alreadyV2_migrated (h : Prepared tool v1 plan) (hreads : ReadsDirectory tool.loads plan)
    (hfits : plan.encoded.length < U64.size) :
    tool.alreadyV2 (migrated v1 plan) = .ok (some plan.candidate.identity) := by
  unfold Tool.alreadyV2
  rw [if_pos migrated_magic, openArtifact_migrated h hreads hfits]
  dsimp only
  exact ensure_bind_eq_ok.mpr ⟨List.mem_map_of_mem h.known, rfl⟩

theorem alreadyV2_broken {file : List UInt8} {what : String} (hmagic : file.take 8 = magic)
    (h : openArtifact tool.loads file = .error (.artifactError what)) :
    tool.alreadyV2 file =
      .error (.migrationErrorFrom "invalid v2 artifact" (.artifactError what)) := by
  unfold Tool.alreadyV2
  rw [if_pos hmagic, h]
  rfl

/-- A file that is not rewritten is recognised as such, and one that is broken is restored. -/
theorem recognise_ensures (h : Prepared tool v1 plan) (hreads : ReadsDirectory tool.loads plan)
    {disk : Disk} (hsound : Sound tool v1 plan disk) :
    tool.recognise.Ensures disk (Before tool v1 plan)
      (fun identity disk' => (identity = none ∧ (disk' = ⟨v1, none⟩ ∨
          ∃ file, disk' = ⟨file, some (metadata v1 plan)⟩ ∧ Sound tool v1 plan disk')) ∨
        (identity = some plan.candidate.identity ∧ plan.encoded.length < U64.size ∧ disk' = disk ∧
          disk.file = migrated v1 plan))
      fun _ _ => False := by
  unfold Tool.recognise
  apply Program.ensures_handle
  apply Program.ensures_read
  · intro identity hidentity
    cases hsound with
    | original =>
      rw [alreadyV2_old h.magic] at hidentity
      exact .inl ⟨(Except.ok.inj hidentity).symm, .inl rfl⟩
    | guarded file payload old =>
      rw [alreadyV2_old old] at hidentity
      exact .inl ⟨(Except.ok.inj hidentity).symm, .inr ⟨file, rfl, .guarded file payload old⟩⟩
    | broken file payload new fails =>
      obtain ⟨what, hwhat⟩ := fails
      rw [alreadyV2_broken new hwhat] at hidentity
      cases hidentity
    | complete fits backup kept =>
      rw [alreadyV2_migrated h hreads fits] at hidentity
      exact .inr ⟨(Except.ok.inj hidentity).symm, fits, rfl, rfl⟩
  · intro e he
    cases hsound with
    | original =>
      rw [alreadyV2_old h.magic] at he
      cases he
    | guarded file payload old =>
      rw [alreadyV2_old old] at he
      cases he
    | broken file payload new fails =>
      have hsound := Sound.broken file payload new fails
      obtain ⟨what, hwhat⟩ := fails
      rw [alreadyV2_broken new hwhat] at he
      cases he
      apply Program.ensures_bind
      apply Program.ensures_read
      swap
      · exact fun e he => nomatch he
      intro found hfound
      cases hfound
      apply Program.ensures_bind
      apply (restoreBackup_ensures h hsound).imp (fun _ _ hbefore => hbefore) _
        fun _ _ hfalse => hfalse.elim
      rintro _ _ rfl
      apply Program.ensures_pure
      exact .inl ⟨rfl, .inl rfl⟩
    | complete fits backup kept =>
      rw [alreadyV2_migrated h hreads fits] at he
      cases he

/-- A run from a sound disk ends with the rewritten file and no backup, or throws and leaves the
original without one. It throws only when an exception comes from outside, or when the directory
is too long for its length word. -/
theorem migrate_ensures (hplan : tool.prepare v1 = .ok plan)
    (hreads : ReadsDirectory tool.loads plan) (fault : Option Nat) {disk : Disk}
    (hsound : Sound tool v1 plan disk) :
    (tool.migrate fault).Ensures disk (Before tool v1 plan) (Migrated v1 plan)
      (fun _ disk' => disk' = ⟨v1, none⟩ ∧ (fault = none → ¬plan.encoded.length < U64.size)) := by
  have h := prepare_spec hplan
  unfold Tool.migrate
  apply Program.ensures_bind
  apply (recognise_ensures h hreads hsound).imp (fun _ _ hbefore => hbefore) _
    fun _ _ hfalse => hfalse.elim
  rintro identity disk' (⟨rfl, hdisk⟩ | ⟨rfl, hfits, rfl, hfile⟩)
  · apply Program.ensures_bind
    apply Program.ensures_read
    swap
    · exact fun e he => nomatch he
    intro found hfound
    rcases hdisk with rfl | ⟨file, rfl, hsound'⟩
    · cases hfound
      exact convert_ensures hplan hreads fault
    · cases hfound
      apply Program.ensures_bind
      apply (restoreBackup_ensures h hsound').imp (fun _ _ hbefore => hbefore) _
        fun _ _ hfalse => hfalse.elim
      rintro _ _ rfl
      exact convert_ensures hplan hreads fault
  · apply Program.ensures_bind
    apply Program.ensures_read
    swap
    · exact fun e he => nomatch he
    intro found hfound
    obtain ⟨file, backup⟩ := disk'
    cases hfile
    cases backup with
    | none =>
      cases hfound
      apply Program.ensures_pure
      exact ⟨rfl, hfits, rfl⟩
    | some data =>
      cases hfound
      apply Program.ensures_bind
      apply Program.ensures_write
      · intro k w hw
        cases k with
        | zero =>
          cases hw
          exact hsound
        | succ k => cases hw
      · apply Program.ensures_pure
        exact ⟨rfl, hfits, rfl⟩

/-- Beside a backup that was cut short a run throws and writes nothing. -/
theorem migrate_torn (h : Prepared tool v1 plan) (fault : Option Nat) {disk : Disk}
    (htorn : Torn v1 plan disk) :
    (tool.migrate fault).Ensures disk (fun _ _ => False) (fun _ _ => False)
      (fun e disk' => e = .migrationError "invalid migration recovery file" ∧ disk' = disk) := by
  obtain ⟨k, hk, rfl⟩ := htorn
  unfold Tool.migrate
  apply Program.ensures_bind
  -- the magic is the old one, so that the backup is looked at
  have hrecognise : tool.recognise.Ensures ⟨v1, some (v1.take k)⟩ (fun _ _ => False)
      (fun identity disk' => identity = none ∧ disk' = ⟨v1, some (v1.take k)⟩)
      fun _ _ => False := by
    unfold Tool.recognise
    apply Program.ensures_handle
    apply Program.ensures_read
    · intro identity hidentity
      rw [alreadyV2_old h.magic] at hidentity
      exact ⟨(Except.ok.inj hidentity).symm, rfl⟩
    · intro e he
      rw [alreadyV2_old h.magic] at he
      cases he
  apply hrecognise.imp (fun _ _ hfalse => hfalse) _ fun _ _ hfalse => hfalse.elim
  rintro _ _ ⟨rfl, rfl⟩
  apply Program.ensures_bind
  apply Program.ensures_read
  swap
  · exact fun e he => nomatch he
  intro found hfound
  cases hfound
  apply Program.ensures_bind
  unfold restoreBackup
  apply Program.ensures_bind
  apply Program.ensures_read
  swap
  · exact fun e he => nomatch he
  intro data hdata
  cases hdata
  apply Program.ensures_bind
  apply Program.ensures_read
  · intro _ hcheck
    rw [checkBackup_torn h hk] at hcheck
    cases hcheck
  · intro e he
    rw [checkBackup_torn h hk] at he
    exact ⟨(Except.error.inj he).symm, rfl⟩

end Run

/-- A run that is cut short after `stop` writes, with an exception from outside after `fault` of
the writes of the metadata. -/
structure Attempt where
  fault : Option Nat
  stop : Nat
  deriving DecidableEq, Repr

/-- The disk an attempt leaves. -/
def Tool.attempt (tool : Tool) (disk : Disk) (a : Attempt) : Disk :=
  (tool.migrate a.fault).stopped a.stop disk

/-- The disk a history of attempts leaves. -/
def Tool.replay (tool : Tool) (attempts : List Attempt) (disk : Disk) : Disk :=
  attempts.foldl tool.attempt disk

/-- Whether an attempt is cut short right before a byte of the backup is written. -/
def Tool.TearsBackup (tool : Tool) (disk : Disk) (a : Attempt) : Prop :=
  ∃ byte, (tool.migrate a.fault disk).1[a.stop]? = some (.appendBackup byte)

/-- No attempt of a history is cut short while the backup is being written. -/
def Tool.SparesBackup (tool : Tool) : List Attempt → Disk → Prop
  | [], _ => True
  | a :: attempts, disk =>
    ¬tool.TearsBackup disk a ∧ tool.SparesBackup attempts (tool.attempt disk a)

section Histories

variable {disk : Disk}

/-- An attempt from a sound disk leaves a torn backup if it is cut short while the backup is being
written, and a sound disk otherwise. -/
theorem attempt_sound (hplan : tool.prepare v1 = .ok plan) (hreads : ReadsDirectory tool.loads plan)
    (hsound : Sound tool v1 plan disk) (a : Attempt) :
    (tool.TearsBackup disk a → Torn v1 plan (tool.attempt disk a)) ∧
      (¬tool.TearsBackup disk a → Sound tool v1 plan (tool.attempt disk a)) := by
  have hensures := migrate_ensures hplan hreads a.fault hsound
  constructor
  · rintro ⟨byte, hbyte⟩
    exact hensures.1 _ _ hbyte
  · intro htears
    have hbefore : (tool.migrate a.fault).Ensures disk
        (fun w disk' => (∀ byte, w ≠ .appendBackup byte) → Sound tool v1 plan disk')
        (Migrated v1 plan) (fun _ disk' => disk' = ⟨v1, none⟩) := by
      apply hensures.imp
      · intro w disk' hw hne
        cases w with
        | appendBackup byte => exact absurd rfl (hne byte)
        | createBackup => exact hw
        | writeFile position byte => exact hw
        | unlinkBackup => exact hw
      · exact fun _ _ hdone => hdone
      · exact fun _ _ hfailed => hfailed.1
    cases hw : (tool.migrate a.fault disk).1[a.stop]? with
    | some w =>
      apply hbefore.1 _ _ hw
      rintro byte rfl
      exact htears ⟨byte, hw⟩
    | none =>
      -- the attempt was not cut short
      have hfinal : tool.attempt disk a = (tool.migrate a.fault).final disk := by
        unfold Tool.attempt Program.stopped Program.final
        rw [List.take_of_length_le (List.getElem?_eq_none_iff.mp hw)]
      rw [hfinal]
      have hend := hbefore.2
      cases hresult : (tool.migrate a.fault).result disk with
      | ok identity =>
        rw [hresult] at hend
        obtain ⟨-, hfits, hdone⟩ := hend
        rw [hdone]
        exact Sound.complete hfits none fun data hdata => nomatch hdata
      | error e =>
        rw [hresult] at hend
        rw [hend]
        exact Sound.original

theorem attempt_torn (h : Prepared tool v1 plan) (htorn : Torn v1 plan disk) (a : Attempt) :
    tool.attempt disk a = disk :=
  (migrate_torn h a.fault htorn).stopped (fun _ _ hfalse => hfalse.elim)
    (fun _ _ hfalse => hfalse.elim) (fun _ _ hend => hend.2) a.stop

theorem replay_torn (h : Prepared tool v1 plan) (htorn : Torn v1 plan disk)
    (attempts : List Attempt) : tool.replay attempts disk = disk := by
  induction attempts with
  | nil => rfl
  | cons a attempts ih =>
    show tool.replay attempts (tool.attempt disk a) = disk
    rw [attempt_torn h htorn a]
    exact ih

/-- A history that spares the backup leads to a sound disk, and any other to a torn backup. -/
theorem replay_sound (hplan : tool.prepare v1 = .ok plan) (hreads : ReadsDirectory tool.loads plan)
    (hsound : Sound tool v1 plan disk) (attempts : List Attempt) :
    (tool.SparesBackup attempts disk ∧ Sound tool v1 plan (tool.replay attempts disk)) ∨
      (¬tool.SparesBackup attempts disk ∧ Torn v1 plan (tool.replay attempts disk)) := by
  induction attempts generalizing disk with
  | nil => exact .inl ⟨trivial, hsound⟩
  | cons a attempts ih =>
    obtain ⟨htorn, hsound'⟩ := attempt_sound hplan hreads hsound a
    by_cases htears : tool.TearsBackup disk a
    · right
      refine ⟨fun hspares => hspares.1 htears, ?_⟩
      show Torn v1 plan (tool.replay attempts (tool.attempt disk a))
      rw [replay_torn (prepare_spec hplan) (htorn htears)]
      exact htorn htears
    · rcases ih (hsound' htears) with ⟨hspares, hend⟩ | ⟨hspares, hend⟩
      · exact .inl ⟨⟨htears, hspares⟩, hend⟩
      · exact .inr ⟨fun hall => hspares hall.2, hend⟩

/-- A file that does not pass the checks is left alone by a run. -/
theorem migrate_unpublished {e : PyException} (hmagic : v1.take 8 = v1Magic)
    (hfails : tool.prepare v1 = .error e) (fault : Option Nat) :
    (tool.migrate fault).Ensures ⟨v1, none⟩ (fun _ _ => False) (fun _ _ => False)
      (fun _ disk => disk = ⟨v1, none⟩) := by
  unfold Tool.migrate
  apply Program.ensures_bind
  unfold Tool.recognise
  apply Program.ensures_handle
  apply Program.ensures_read
  swap
  · intro e he
    rw [alreadyV2_old hmagic] at he
    cases he
  intro identity hidentity
  rw [alreadyV2_old hmagic] at hidentity
  cases hidentity
  apply Program.ensures_bind
  apply Program.ensures_read
  swap
  · exact fun e he => nomatch he
  intro found hfound
  cases hfound
  unfold Tool.convert
  apply Program.ensures_bind
  apply Program.ensures_read
  · intro plan hplan
    dsimp only at hplan
    rw [hfails] at hplan
    cases hplan
  · exact fun _ _ => rfl

theorem replay_unpublished {e : PyException} (hmagic : v1.take 8 = v1Magic)
    (hfails : tool.prepare v1 = .error e) (attempts : List Attempt) :
    tool.replay attempts ⟨v1, none⟩ = ⟨v1, none⟩ := by
  induction attempts with
  | nil => rfl
  | cons a attempts ih =>
    have hattempt : tool.attempt ⟨v1, none⟩ a = ⟨v1, none⟩ :=
      (migrate_unpublished hmagic hfails a.fault).stopped (fun _ _ hfalse => hfalse.elim)
        (fun _ _ hfalse => hfalse.elim) (fun _ _ hend => hend) a.stop
    show tool.replay attempts (tool.attempt ⟨v1, none⟩ a) = ⟨v1, none⟩
    rw [hattempt]
    exact ih

end Histories

/-- Where the payload of a file starts, by its length word. -/
def payloadOffsetOf (file : List UInt8) : Nat :=
  alignUp (prefixBytes + unpackWord ((file.drop 8).take 8)) payloadAlignment

/-- The file is a valid artifact of version 2, of the length and the payload offset of the
original, with the identity and the objects that are expected of it. -/
def ValidV2 (tool : Tool) (v1 file : List UInt8) (identity : ArtifactIdentity) : Prop :=
  ∃ plan, tool.prepare v1 = .ok plan ∧ identity = plan.candidate.identity ∧
    openArtifact tool.loads file =
      .ok ⟨v1.length, payloadOffsetOf v1, identity, plan.planned⟩

/-- What is never lost. -/
structure Preserved (tool : Tool) (v1 : List UInt8) (disk : Disk) : Prop where
  length : disk.file.length = v1.length
  payload : disk.file.drop (payloadOffsetOf v1) = v1.drop (payloadOffsetOf v1)
  metadata : disk.file.take (payloadOffsetOf v1) = v1.take (payloadOffsetOf v1) ∨
    disk.backup = some (v1.take (payloadOffsetOf v1)) ∨
    ∃ identity, ValidV2 tool v1 disk.file identity

section Results

theorem validV2_migrated (hplan : tool.prepare v1 = .ok plan)
    (hreads : ReadsDirectory tool.loads plan) (hfits : plan.encoded.length < U64.size) :
    ValidV2 tool v1 (migrated v1 plan) plan.candidate.identity := by
  have h := prepare_spec hplan
  refine ⟨plan, hplan, rfl, ?_⟩
  rw [openArtifact_migrated h hreads hfits]
  unfold payloadOffsetOf
  rw [h.payloadOffset]
  rfl

theorem preserved_of_sound (hplan : tool.prepare v1 = .ok plan)
    (hreads : ReadsDirectory tool.loads plan) {disk : Disk} (hsound : Sound tool v1 plan disk) :
    Preserved tool v1 disk := by
  have h := prepare_spec hplan
  have hoffset : payloadOffsetOf v1 = plan.directory.payloadOffset := h.payloadOffset.symm
  cases hsound with
  | original => exact ⟨rfl, rfl, .inl rfl⟩
  | guarded file payload old =>
    exact ⟨payload.1, by rw [hoffset]; exact payload.2, .inr (.inl (by rw [hoffset]; rfl))⟩
  | broken file payload new fails =>
    exact ⟨payload.1, by rw [hoffset]; exact payload.2, .inr (.inl (by rw [hoffset]; rfl))⟩
  | complete fits backup kept =>
    refine ⟨h.length_migrated, ?_, .inr (.inr ⟨_, validV2_migrated hplan hreads fits⟩)⟩
    rw [hoffset]
    exact h.keepsPayload_migrated.2

/-- **The migration never loses data.** Whatever a history of runs, cut short after any of their
writes or interrupted, has left of a version 1 file: its length and its payload are unchanged; its
metadata is in the file or complete in the backup, or the file is a valid artifact of version 2;
and a run that is not cut short returns with such an artifact, or throws and leaves the original
file. -/
theorem migration_never_loses_data (tool : Tool) (v1 : List UInt8) (hmagic : v1.take 8 = v1Magic)
    (hreads : ∀ plan, tool.prepare v1 = .ok plan → ReadsDirectory tool.loads plan)
    (attempts : List Attempt) (fault : Option Nat) :
    Preserved tool v1 (tool.replay attempts ⟨v1, none⟩) ∧
      match (tool.migrate fault).result (tool.replay attempts ⟨v1, none⟩) with
      | .ok identity =>
        ValidV2 tool v1 ((tool.migrate fault).final (tool.replay attempts ⟨v1, none⟩)).file identity
      | .error _ => ((tool.migrate fault).final (tool.replay attempts ⟨v1, none⟩)).file = v1 := by
  cases hprepare : tool.prepare v1 with
  | error e =>
    -- The tool refuses such a file, and no attempt changes it.
    rw [replay_unpublished hmagic hprepare]
    refine ⟨⟨rfl, rfl, .inl rfl⟩, ?_⟩
    have hend := (migrate_unpublished hmagic hprepare fault).2
    cases hresult : (tool.migrate fault).result ⟨v1, none⟩ with
    | ok identity =>
      rw [hresult] at hend
      exact hend.elim
    | error e' =>
      rw [hresult] at hend
      rw [hend]
  | ok plan =>
    have hplan := hreads plan hprepare
    rcases replay_sound hprepare hplan Sound.original attempts with ⟨-, hsound⟩ | ⟨-, htorn⟩
    · refine ⟨preserved_of_sound hprepare hplan hsound, ?_⟩
      have hend := (migrate_ensures hprepare hplan fault hsound).2
      cases hresult : (tool.migrate fault).result (tool.replay attempts ⟨v1, none⟩) with
      | ok identity =>
        rw [hresult] at hend
        obtain ⟨rfl, hfits, hfinal⟩ := hend
        rw [hfinal]
        exact validV2_migrated hprepare hplan hfits
      | error e =>
        rw [hresult] at hend
        rw [hend.1]
    -- A torn backup stops every later run, but the file beside it is still the original.
    · have hend := (migrate_torn (prepare_spec hprepare) fault htorn).2
      obtain ⟨k, hk, hdisk⟩ := htorn
      rw [hdisk] at hend ⊢
      refine ⟨⟨rfl, rfl, .inl rfl⟩, ?_⟩
      cases hresult : (tool.migrate fault).result ⟨v1, some (v1.take k)⟩ with
      | ok identity =>
        rw [hresult] at hend
        exact hend.elim
      | error e =>
        rw [hresult] at hend
        rw [hend.2]

/-- What a migration is to end with: a valid artifact of version 2 and no backup. -/
def Completes (tool : Tool) (v1 : List UInt8) (disk : Disk) : Prop :=
  ∃ identity, (tool.migrate none).result disk = .ok identity ∧
    ValidV2 tool v1 ((tool.migrate none).final disk).file identity ∧
    ((tool.migrate none).final disk).backup = none

theorem completes_of_sound (hplan : tool.prepare v1 = .ok plan)
    (hreads : ReadsDirectory tool.loads plan) (hsize : v1.length < U64.size) {disk : Disk}
    (hsound : Sound tool v1 plan disk) : Completes tool v1 disk := by
  have h := prepare_spec hplan
  have hfits : plan.encoded.length < U64.size := by
    have := h.encoded_le
    have := h.offset_le
    omega
  have hend := (migrate_ensures hplan hreads none hsound).2
  cases hresult : (tool.migrate none).result disk with
  | ok identity =>
    rw [hresult] at hend
    obtain ⟨rfl, -, hfinal⟩ := hend
    refine ⟨_, hresult, ?_, ?_⟩
    · rw [hfinal]
      exact validV2_migrated hplan hreads hfits
    · rw [hfinal]
  | error e =>
    rw [hresult] at hend
    exact absurd hfits (hend.2 rfl)

theorem not_completes_of_torn (h : Prepared tool v1 plan) {disk : Disk}
    (htorn : Torn v1 plan disk) : ¬Completes tool v1 disk := by
  rintro ⟨identity, hresult, -⟩
  have hend := (migrate_torn h none htorn).2
  rw [hresult] at hend
  exact hend

/-- **A migration that was cut short completes unless the backup was cut short.** After any history
of runs on a published file, a run that is not interrupted ends with a valid artifact of version 2
and no backup exactly if no run of the history was cut short while it wrote the backup. -/
theorem migration_completes_iff (tool : Tool) (v1 : List UInt8) (plan : Plan)
    (hplan : tool.prepare v1 = .ok plan) (hreads : ReadsDirectory tool.loads plan)
    (hsize : v1.length < U64.size) (attempts : List Attempt) :
    Completes tool v1 (tool.replay attempts ⟨v1, none⟩) ↔
      tool.SparesBackup attempts ⟨v1, none⟩ := by
  rcases replay_sound hplan hreads Sound.original attempts with
    ⟨hspares, hsound⟩ | ⟨hspares, htorn⟩
  · exact ⟨fun _ => hspares, fun _ => completes_of_sound hplan hreads hsize hsound⟩
  · constructor
    -- No later run repairs a torn backup.
    · intro hcompletes
      exact absurd hcompletes (not_completes_of_torn (prepare_spec hplan) htorn)
    · exact fun hall => absurd hall hspares

end Results

section Sample

/-- A published artifact with one resource. -/
def sampleArtifact : PublishedV1Artifact :=
  ⟨"model", "weights", "digest", "digest", [.resource "vocab" "raw-bytes-v1"]⟩

/-- Its object. -/
def sampleObjects : List ArtifactObject := [.resource ⟨"vocab", "raw-bytes-v1", 0, 1⟩]

/-- Its directory in version 1. -/
def sampleV1Json : Json :=
  .obj [("model_id", .str "model"), ("objects", .arr (sampleObjects.map ArtifactObject.toJson))]

/-- The text of a directory. -/
def directoryText (document : Json) : List UInt8 := utf8 (document.dumps [','] [':'])

/-- Its directory in version 2. -/
def sampleV2Json : Json := directoryJson ⟨"model", "weights"⟩ sampleObjects

/-- A tool that knows the artifact, and a parser that knows its two directories. -/
def sampleTool : Tool where
  loads data :=
    if data = directoryText sampleV2Json then some sampleV2Json
    else if data = directoryText sampleV1Json then some sampleV1Json
    else none
  sha256 _ := "digest"
  candidates := [sampleArtifact]

/-- The file of version 1. -/
def sampleFile : List UInt8 :=
  v1Magic ++ packWord (directoryText sampleV1Json).length ++ directoryText sampleV1Json ++
    List.replicate (4096 - 16 - (directoryText sampleV1Json).length) 0 ++ [7]

/-- What is computed on the sample: the plan, the texts of the two directories, which differ in
their third byte, the word and the length of the file, and the first two writes of a run. -/
theorem sample_evaluated :
    (sampleTool.prepare sampleFile).toOption.map (fun plan => (plan.candidate, plan.planned)) =
        some (sampleArtifact, sampleObjects) ∧
      (directoryText sampleV2Json).take 3 ≠ (directoryText sampleV1Json).take 3 ∧
      3 ≤ (directoryText sampleV2Json).length ∧
      (∀ k, k < (directoryText sampleV2Json).length →
        (sampleTool.loads ((directoryText sampleV2Json).take k)).isNone = true) ∧
      sampleFile.take 8 = v1Magic ∧ sampleFile.length < U64.size ∧
      (sampleTool.migrate none ⟨sampleFile, none⟩).1.take 2 =
        [.createBackup, .appendBackup 78] := by
  decide +kernel

theorem sampleTool_prepare : ∃ plan, sampleTool.prepare sampleFile = .ok plan ∧
    plan.candidate = sampleArtifact ∧ plan.planned = sampleObjects := by
  have heval := sample_evaluated.1
  cases hprepare : sampleTool.prepare sampleFile with
  | error e =>
    rw [hprepare] at heval
    cases heval
  | ok plan =>
    rw [hprepare] at heval
    obtain ⟨hcandidate, hplanned⟩ := Prod.mk.inj (Option.some.inj heval)
    exact ⟨plan, rfl, hcandidate, hplanned⟩

theorem sampleTool_reads {plan : Plan} (hplan : sampleTool.prepare sampleFile = .ok plan) :
    ReadsDirectory sampleTool.loads plan := by
  obtain ⟨plan', hplan', hcandidate, hplanned⟩ := sampleTool_prepare
  have hsame : plan' = plan := Except.ok.inj (hplan'.symm.trans hplan)
  rw [hsame] at hcandidate hplanned
  have hdocument : directoryJson plan.candidate.identity plan.planned = sampleV2Json := by
    rw [hcandidate, hplanned]
    rfl
  have hencoded : plan.encoded = directoryText sampleV2Json := by
    rw [(prepare_spec hplan).encoded, hdocument]
    rfl
  obtain ⟨-, hthird, hlength, hcut, -⟩ := sample_evaluated
  constructor
  · rw [hencoded, hdocument]
    unfold sampleTool
    dsimp only
    rw [if_pos rfl]
  · rw [hencoded]
    exact fun k hk => Option.isNone_iff_eq_none.mp (hcut k hk)
  · intro rest value hvalue
    rw [hencoded] at hvalue
    rw [hdocument]
    unfold sampleTool at hvalue
    dsimp only at hvalue
    split_ifs at hvalue with hv2 hv1
    · have hrest : rest = [] := List.append_right_eq_self.mp hv2
      rw [hrest]
      exact ⟨(Option.some.inj hvalue).symm, rfl⟩
    · exfalso
      apply hthird
      rw [← hv1, List.take_append_of_le_length hlength]

/-- The sample after two runs that were cut short, one of them while it restored the backup. -/
theorem sample_never_loses_data : Preserved sampleTool sampleFile
    (sampleTool.replay [⟨none, 6000⟩, ⟨some 4100, 12000⟩] ⟨sampleFile, none⟩) :=
  (migration_never_loses_data sampleTool sampleFile sample_evaluated.2.2.2.2.1
    (fun _ => sampleTool_reads) [⟨none, 6000⟩, ⟨some 4100, 12000⟩] none).1

/-- The first two writes of a run on the sample. -/
theorem sampleTool_writes : (sampleTool.migrate none ⟨sampleFile, none⟩).1.take 2 =
    [.createBackup, .appendBackup 78] := sample_evaluated.2.2.2.2.2.2

theorem sampleTool_write {k : Nat} (hk : k < 2) :
    (sampleTool.migrate none ⟨sampleFile, none⟩).1[k]? =
      ([.createBackup, .appendBackup 78] : List Write)[k]? := by
  rw [← sampleTool_writes, List.getElem?_take_of_lt hk]

/-- The sample is migrated after a run that was cut short before its first write. -/
theorem sample_completes : Completes sampleTool sampleFile
    (sampleTool.replay [⟨none, 0⟩] ⟨sampleFile, none⟩) := by
  obtain ⟨plan, hplan, -, -⟩ := sampleTool_prepare
  apply (migration_completes_iff sampleTool sampleFile plan hplan (sampleTool_reads hplan)
    sample_evaluated.2.2.2.2.2.1 [⟨none, 0⟩]).mpr
  refine ⟨?_, trivial⟩
  rintro ⟨byte, hbyte⟩
  rw [sampleTool_write (by decide)] at hbyte
  cases hbyte

/-- A run that is cut short right after it created the backup leaves a disk on which every later
run throws and writes nothing. -/
theorem sample_torn : (∃ plan, sampleTool.prepare sampleFile = .ok plan ∧
      ReadsDirectory sampleTool.loads plan) ∧ sampleFile.length < U64.size ∧
    ¬Completes sampleTool sampleFile (sampleTool.replay [⟨none, 1⟩] ⟨sampleFile, none⟩) ∧
    ∀ attempts, sampleTool.replay ([⟨none, 1⟩] ++ attempts) ⟨sampleFile, none⟩ =
      ⟨sampleFile, some []⟩ := by
  obtain ⟨plan, hplan, -, -⟩ := sampleTool_prepare
  have h := prepare_spec hplan
  have hreplay : sampleTool.replay [⟨none, 1⟩] ⟨sampleFile, none⟩ = ⟨sampleFile, some []⟩ := by
    have hwrites : (sampleTool.migrate none ⟨sampleFile, none⟩).1.take 1 = [.createBackup] := by
      rw [show 1 = min 1 2 from rfl, ← List.take_take, sampleTool_writes]
      rfl
    rw [Tool.replay, List.foldl_cons, List.foldl_nil, Tool.attempt, Program.stopped, hwrites]
    rfl
  have htorn : Torn sampleFile plan ⟨sampleFile, some []⟩ := by
    have := h.sixteen_le
    exact ⟨0, by omega, rfl⟩
  refine ⟨⟨plan, hplan, sampleTool_reads hplan⟩, sample_evaluated.2.2.2.2.2.1, ?_, ?_⟩
  · rw [hreplay]
    exact not_completes_of_torn h htorn
  · intro attempts
    unfold Tool.replay at hreplay ⊢
    rw [List.foldl_append, hreplay]
    exact replay_torn h htorn attempts

end Sample

end Ninfer.Artifact.Tools
