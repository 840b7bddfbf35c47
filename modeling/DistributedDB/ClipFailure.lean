import DistributedDB.FileExchange
import DistributedDB.RingInvariant
import DistributedDB.Slave

/-!
# CLIP_DATA when the transfer fails

The handler of `CLIP_DATA` takes the new slave's part out of the primary into `file_tmp`,
sends that file and moves it to `backup1`.  It does not look at the result of `SendFile`,
though `InitialSlave` gives up when its own side of the transfer returns -1.

`replies` is what the calls of `RecvMsg` bring, `none` where nothing arrives.  What `fopen`
finds for a Tokyo Cabinet file is left open.

**Results.**
* `Slave.handleClipData`: the handler with the result of `SendFile`.
* `Slave.sendFile_unopened`, `sendFile_broken`: the ways in which `SendFile` returns -1
  before a chunk is sent.
* `Slave.clip_keeps_iff`: after a failed transfer the primary has all its entries if and only
  if none of them was to be split off.
-/

namespace DistributedDB

open PartialMap

/-- `SendFile` after these calls of `RecvMsg`. -/
def FileSender.recvMsgs (hd : DBPacketHeader) (s : FileSender) (replies : List (Option PacketBuf)) :
    FileSender :=
  replies.foldl (fun s reply => (s.recvMsg hd reply).1) s

/-- What `SendFile` has returned. -/
def SendStage.result : SendStage → Option Int
  | .returned res => some res
  | _ => none

/-- What `SendFile` returns with these replies; `none` while it waits for the next. -/
def sendFileResult (hd : DBPacketHeader) (szBuf : PacketBuf) (rescmd : CMD) (name : DBName)
    (file : Option DBFile) (replies : List (Option PacketBuf)) : Option Int :=
  ((sendFile hd rescmd name szBuf file).1.recvMsgs hd replies).stage.result

namespace Slave

variable (hd : DBPacketHeader) (szBuf : PacketBuf) (name : DBName) (fopen : HDB → Option DBFile)
  (replies : List (Option PacketBuf)) (s : Slave)

/-- The bounds of `SplitByKey` in `CLIP_DATA`. -/
def clipBounds (s : Slave) : dbKey × dbKey :=
  (toUnsigned (s.slaves.node ((s.pos + 1) % s.slaves.num)).key,
    toUnsigned (s.slaves.node ((s.pos + 2) % s.slaves.num)).key)

/-- `CLIP_DATA`, with what `SendFile` returns in it. -/
def handleClipData : Option (Slave × Int) :=
  let disk := s.disk.mvBackup1
  let split := splitByKey disk.file_master s.clipBounds.1 (openFile disk.file_tmp) s.clipBounds.2
  (sendFileResult hd szBuf .CLIP_DATA_R name (fopen split.2) replies).map fun res =>
    ({ s with
        disk := { disk with file_master := split.1, file_tmp := none, backup1 := some split.2 } },
      res)

/-- The files are those of a transfer that succeeds. -/
theorem handleClipData_eq :
    s.handleClipData hd szBuf name fopen replies =
      (sendFileResult hd szBuf .CLIP_DATA_R name (fopen s.clipData.2) replies).map fun res =>
        (s.clipData.1, res) :=
  rfl

section Failures

variable {hd szBuf name replies} {rescmd : CMD}

theorem recvMsgs_returned {s : FileSender} {res : Int} (h : s.stage = .returned res) :
    s.recvMsgs hd replies = s := by
  induction replies with
  | nil => rfl
  | cons reply replies ih =>
      have hsame : (s.recvMsg hd reply).1 = s := by simp only [FileSender.recvMsg, h]
      rw [FileSender.recvMsgs, List.foldl_cons, hsame]
      exact ih

/-- `SendFile` returns -1 when the file cannot be opened. -/
theorem sendFile_unopened : sendFileResult hd szBuf rescmd name none replies = some (-1) := by
  have hfails : (sendFile hd rescmd name szBuf none).1.stage = .returned (-1) := rfl
  rw [sendFileResult, recvMsgs_returned hfails]
  rfl

/-- `SendFile` returns -1 when the first reply has another command than `FILETRANS_R`, or
when the connection breaks and the buffer keeps the packet that was sent. -/
theorem sendFile_broken {file : DBFile} {reply : Option PacketBuf}
    (hrescmd : rescmd.word ≠ CMD.FILETRANS_R.word)
    (hreply : ∀ packet ∈ reply, packet.getHeader.cmd ≠ CMD.FILETRANS_R.word) :
    sendFileResult hd szBuf rescmd name (some file) (reply :: replies) = some (-1) := by
  have hcmd : (reply.getD (sendFile hd rescmd name szBuf (some file)).1.szBuf).getHeader.cmd ≠
      CMD.FILETRANS_R.word := by
    cases reply with
    | some packet => exact hreply packet rfl
    | none =>
        have hsent : (sendFile hd rescmd name szBuf (some file)).1.szBuf.getHeader.cmd =
            rescmd.word :=
          (Transfer.getHeader_exchangePacket _ _ _ _).1
        rw [Option.getD_none, hsent]
        exact hrescmd
  have hfails : ((sendFile hd rescmd name szBuf (some file)).1.recvMsg hd reply).1.stage =
      .returned (-1) := by
    have hbranch : (sendFile hd rescmd name szBuf (some file)).1.recvMsg hd reply =
        (⟨.returned (-1), _⟩, none) := if_pos hcmd
    rw [hbranch]
  rw [sendFileResult, FileSender.recvMsgs, List.foldl_cons]
  rw [show List.foldl _ _ replies = _ from recvMsgs_returned hfails, hfails]
  rfl

end Failures

/-- The handler leaves in the primary what it does not split off. -/
theorem contents_handleClipData {s' : Slave} {res : Int}
    (h : s.handleClipData hd szBuf name fopen replies = some (s', res)) :
    contents s'.disk.file_master =
      restrict (fun k => ¬ inSplitRange s.clipBounds.1 s.clipBounds.2 k = true)
        (contents s.disk.file_master) := by
  rw [handleClipData_eq] at h
  obtain ⟨_, -, heq⟩ := Option.map_eq_some_iff.mp h
  obtain ⟨rfl, -⟩ := Prod.mk.inj heq
  have hsplit := contents_splitByKey s.disk.mvBackup1.file_master
    (openFile s.disk.mvBackup1.file_tmp) s.clipBounds.1 s.clipBounds.2
  refine hsplit.1.trans ?_
  rw [file_master_mvBackup1]

/-- **A failed transfer loses what was split off**: when `SendFile` returns -1, the primary
has every entry that it had before the request if and only if no entry of it is in the range
that `CLIP_DATA` splits off. -/
theorem clip_keeps_iff (s' : Slave)
    (h : s.handleClipData hd szBuf name fopen replies = some (s', -1)) :
    (∀ k v, contents s.disk.file_master k = some v →
      contents s'.disk.file_master k = some v) ↔
      ∀ k, contents s.disk.file_master k ≠ none →
        inSplitRange s.clipBounds.1 s.clipBounds.2 k = false := by
  rw [contents_handleClipData hd szBuf name fopen replies s h]
  constructor
  · intro hkeeps k hk
    obtain ⟨v, hv⟩ := Option.ne_none_iff_exists'.mp hk
    have hkept := hkeeps k v hv
    by_contra hin
    rw [restrict, if_neg (by simpa using hin)] at hkept
    cases hkept
  · intro hnone k v hv
    have hout := hnone k (by rw [hv]; exact Option.some_ne_none v)
    rw [restrict, if_pos (by simp [hout]), hv]

/-- The predecessor in a ring of two, with one entry. -/
def predecessor (key : dbKey) : Slave where
  slaves := ringOf 2
  pos := 0
  disk := ⟨(∅ : HDB).insert key [65], none, none, none⟩

/-- `file_tmp` cannot be opened, and the entry belongs to the predecessor. -/
theorem clip_keeps_iff_predecessor :
    ∃ s', (predecessor 10).handleClipData ⟨0, 0, 0, 0⟩ (ByteBuffer.zero _)
        ⟨[97], by decide, by decide⟩ (fun _ => none) [] = some (s', -1) ∧
      ∀ k v, contents (predecessor 10).disk.file_master k = some v →
        contents s'.disk.file_master k = some v := by
  have hfails : (predecessor 10).handleClipData ⟨0, 0, 0, 0⟩ (ByteBuffer.zero _)
      ⟨[97], by decide, by decide⟩ (fun _ => none) [] = some (_, -1) := rfl
  refine ⟨_, hfails, (clip_keeps_iff _ _ _ _ _ _ _ hfails).mpr fun k hk => ?_⟩
  have hkey : k = 10 := by
    by_contra hne
    rw [predecessor, contents_insert, Function.update_of_ne hne] at hk
    exact hk rfl
  rw [hkey]
  decide +kernel

/-- `file_tmp` cannot be opened, and the entry is in neither primary afterwards. -/
theorem clip_loses :
    ∃ s', (predecessor 6000).handleClipData ⟨0, 0, 0, 0⟩ (ByteBuffer.zero _)
        ⟨[97], by decide, by decide⟩ (fun _ => none) [] = some (s', -1) ∧
      contents (predecessor 6000).disk.file_master 6000 = some [65] ∧
      contents s'.disk.file_master 6000 = none :=
  ⟨_, rfl, by decide +kernel, by decide +kernel⟩

end Slave

end DistributedDB
