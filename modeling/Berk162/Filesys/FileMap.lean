import Berk162.Filesys.FsRuns
import Mathlib.Data.Finmap

/-!
# FileMap — what the file system is for

A file system is a finite map from names to files, a file is a string of bytes, and a handle is a
file with a position.  A file that has lost its name keeps its bytes as long as there are handles to
it.  Nothing here says where the bytes are.

A file is known by a number, which may be used again when neither a name nor a handle has it.
-/

namespace Berk162

structure FileMap where
  names : Finmap fun _ : CString => Nat
  data : Nat → Bytes
  handles : Finmap fun _ : Nat => Nat × Nat

/-- The bytes `bs`, written over those of `data` from `pos` on. -/
def overwrite (data : Bytes) (pos : Nat) (bs : Bytes) : Bytes :=
  data.take pos ++ bs ++ data.drop (pos + bs.length)

namespace FileMap

/-- No name and no handle has the file number. -/
structure Unused (m : FileMap) (i : Nat) : Prop where
  names : ∀ name, m.names.lookup name ≠ some i
  handles : ∀ f pos, m.handles.lookup f ≠ some (i, pos)

/-- What a call may do. -/
inductive Step : FileMap → FsCall × FsResult → FileMap → Prop
  | created {m : FileMap} {name : CString} {size i : Nat} {e : DirEntry} :
      name.chars ≠ [] → name.chars.length ≤ NAME_MAX → m.names.lookup name = none → m.Unused i →
      Step m (FsCall.create name size e, FsResult.success true)
        { m with
          names := m.names.insert name i
          data := Function.update m.data i (List.replicate size 0) }
  /-- Whether a file is created depends on the free sectors too, of which the map knows nothing. -/
  | not_created {m : FileMap} {name : CString} {size : Int} {e : DirEntry} :
      Step m (FsCall.create name size e, FsResult.success false) m
  | opened {m : FileMap} {name : CString} {i f : Nat} {e : DirEntry} :
      m.names.lookup name = some i → m.handles.lookup f = none →
      Step m (FsCall.openFile name e, FsResult.file (some f))
        { m with handles := m.handles.insert f (i, 0) }
  | not_opened {m : FileMap} {name : CString} {e : DirEntry} :
      m.names.lookup name = none → Step m (FsCall.openFile name e, FsResult.file none) m
  | removed {m : FileMap} {name : CString} {i : Nat} {e : DirEntry} :
      m.names.lookup name = some i →
      Step m (FsCall.remove name e, FsResult.success true) { m with names := m.names.erase name }
  | not_removed {m : FileMap} {name : CString} {e : DirEntry} :
      m.names.lookup name = none → Step m (FsCall.remove name e, FsResult.success false) m
  | reopened {m : FileMap} {f g i pos : Nat} :
      m.handles.lookup f = some (i, pos) → m.handles.lookup g = none →
      Step m (FsCall.reopen f, FsResult.file (some g)) { m with handles := m.handles.insert g (i, 0) }
  | closed {m : FileMap} {f i pos : Nat} :
      m.handles.lookup f = some (i, pos) →
      Step m (FsCall.close f, FsResult.done) { m with handles := m.handles.erase f }
  | read {m : FileMap} {f i pos size : Nat} {bs : Bytes} :
      m.handles.lookup f = some (i, pos) → bs = ((m.data i).drop pos).take size →
      Step m (FsCall.read f size, FsResult.bytes bs)
        { m with handles := m.handles.insert f (i, pos + bs.length) }
  | write {m : FileMap} {f i pos n : Nat} {buffer : Bytes} :
      m.handles.lookup f = some (i, pos) → n = min buffer.length ((m.data i).length - pos) →
      Step m (FsCall.write f buffer, FsResult.count n)
        { m with
          data := Function.update m.data i (overwrite (m.data i) pos (buffer.take n))
          handles := m.handles.insert f (i, pos + n) }
  | seek {m : FileMap} {f i pos new_pos : Nat} :
      m.handles.lookup f = some (i, pos) →
      Step m (FsCall.seek f new_pos, FsResult.done)
        { m with handles := m.handles.insert f (i, new_pos) }

/-- The file maps that grow from one with no names and no handles. -/
def runs : System FileMap (FsCall × FsResult) where
  init m := m.names = ∅ ∧ m.handles = ∅
  step := Step

end FileMap

end Berk162
