import ApfsCore.Cursor.Content
import ApfsCore.General.Service
import ApfsCore.Vfs.Reading

/-!
# Workers that share a mounted volume

`ApfsFs` keeps its reader behind a `Mutex`, so that one mounted handle serves any number of
workers. An operation looks at its arguments, locks the reader, runs its seeks and reads, and
releases the lock with its answer; workers interleave as they please. The reader has one position
for all of them, which each operation finds where another one left it.

Nothing of that shows in the answers (`workers_answered_as_alone`): in every interleaving each
operation answers what it answers alone, on the image; the lock is never poisoned; and no request
waits in vain.
-/

namespace ApfsCore

/-! ### Requests -/

/-- An operation of the interface, with its arguments. -/
inductive Request where
  | readDir (ino : FileId)
  | extents (ino : FileId) (stream : StreamId)
  | lookup (parent : FileId) (name : Bytes)
  | nodeMeta (ino : FileId)
  | readAt (ino : FileId) (stream : StreamId) (off : ℕ) (buf : Bytes)
  | readLink (ino : FileId) (cap : ℕ)
  | deleted
  | unallocated

/-- What an operation returns. -/
inductive Response where
  | entries (entries : List VfsEntry)
  | runs (runs : List RunInfo)
  | found (id : Option FileId)
  | attributes (m : FsMeta)
  | window (n : ℕ) (buf : Bytes)
  | target (bytes : Bytes)
  | nodes (ids : List FileId)
  deriving DecidableEq

namespace ApfsFs

variable (fs : ApfsFs) (host : Host)

/-- The operation made alone, on the image. -/
def serve (img : Image) : Request → VfsResult Response
  | .readDir ino => .entries <$> fs.readDir img ino
  | .extents ino stream => .runs <$> fs.extents img ino stream
  | .lookup parent name => .found <$> fs.lookup img parent name
  | .nodeMeta ino => .attributes <$> fs.nodeMeta host img ino
  | .readAt ino stream off buf =>
    (fun r => .window r.1 r.2) <$> fs.readAt host img ino stream off buf
  | .readLink ino cap => .target <$> fs.readLink ino cap
  | .deleted => .nodes <$> fs.deleted
  | .unallocated => .runs <$> fs.unallocated

/-- `.map_err(map_err)`, on an operation over the reader. -/
def mapErrAction {α : Type} (p : Cursor.Action α) :
    Program Cursor.Command Cursor.Reply (Stop VfsError) α :=
  p.mapError Fault.toVfs

/-- What an operation does between taking the lock and releasing it. -/
def underLock : Request → Program Cursor.Command Cursor.Reply (Stop VfsError) Response
  | .readDir ino => do
    let parent ← Program.lift (oidOf ino)
    let entries ← mapErrAction (Cursor.listDir fs.volume parent fs.blockSize)
    Program.lift (.ok (.entries (entries.map fs.entryOf)))
  | .extents ino stream => do
    let node ← Program.lift (oidOf ino)
    Program.lift (requireDefaultStream stream)
    let inode ← mapErrAction (Cursor.loadInode fs.volume node fs.blockSize)
    let exts ← mapErrAction (Cursor.listExtents fs.volume inode.privateId fs.blockSize)
    Program.lift (.ok (.runs (exts.map (runOf fs.blockSize))))
  | .lookup parent name => do
    let parent ← Program.lift (oidOf parent)
    match fromUtf8 name with
    | none => Program.lift (.ok (.found none))
    | some name => do
      let found ← mapErrAction (Cursor.lookupChild fs.volume parent name fs.blockSize)
      Program.lift (.ok (.found (found.map fun oid => .apfsOid oid fs.rootXid)))
  | .nodeMeta ino => do
    let node ← Program.lift (oidOf ino)
    let inode ← mapErrAction (Cursor.loadInode fs.volume node fs.blockSize)
    let size ← mapErrAction (Cursor.dataSize host fs.volume inode fs.blockSize)
    Program.lift (.ok (.attributes (buildMeta inode size)))
  | .readAt ino stream off buf => do
    let node ← Program.lift (oidOf ino)
    Program.lift (requireDefaultStream stream)
    let inode ← mapErrAction (Cursor.loadInode fs.volume node fs.blockSize)
    let data ← mapErrAction (Cursor.readData host fs.volume inode fs.blockSize)
    let r := window host data off buf
    Program.lift (.ok (.window r.1 r.2))
  | .readLink ino cap => Program.lift (.target <$> fs.readLink ino cap)
  | .deleted => Program.lift (.nodes <$> fs.deleted)
  | .unallocated => Program.lift (.runs <$> fs.unallocated)

/-- The error of arguments that are refused. -/
def refused {α : Type} (x : VfsResult α) : Option (VfsResult Response) :=
  match x with
  | .ok _ => none
  | .error e => some (.error e)

/-- What an operation answers without the lock: its arguments are refused, or there is nothing to
read. -/
def beforeLock : Request → Option (VfsResult Response)
  | .readDir ino => refused (oidOf ino)
  | .extents ino stream => refused (oidOf ino >>= fun _ => requireDefaultStream stream)
  | .lookup parent name =>
    match oidOf parent, fromUtf8 name with
    | .error e, _ => some (.error e)
    | .ok _, none => some (.ok (.found none))
    | .ok _, some _ => none
  | .nodeMeta ino => refused (oidOf ino)
  | .readAt ino stream _ _ => refused (oidOf ino >>= fun _ => requireDefaultStream stream)
  | .readLink ino cap => some (.target <$> fs.readLink ino cap)
  | .deleted => some (.nodes <$> fs.deleted)
  | .unallocated => some (.runs <$> fs.unallocated)

/-- The mounted volume as a service to its workers. -/
def service : Service Cursor.Command Cursor.Reply (Stop VfsError) Response Request where
  early := fs.beforeLock
  body := fs.underLock host
  refusal := .error poisoned
  panics e := ∃ p, e = .panic p

end ApfsFs

/-! ### Each operation alone -/

section Alone

variable {fs : ApfsFs} {host : Host} {img : Image}

/-- **Under the lock an operation does what it does alone**, whatever position it finds. -/
theorem answers_underLock (q : Request) :
    Program.Answers (Cursor.reader img) (fs.underLock host q) (fs.serve host img q) := by
  have hmap : ∀ {α : Type} {p : Cursor.Action α} {x : Result α}, Cursor.Answers img p x →
      Program.Answers (Cursor.reader img) (ApfsFs.mapErrAction p) (mapErr x) :=
    fun hp => hp.mapError Fault.toVfs
  cases q with
  | readDir ino =>
    rw [ApfsFs.serve, ApfsFs.readDir, map_eq_pure_bind, bind_assoc]
    refine (Program.Answers.done _).bind fun parent _ => ?_
    rw [bind_assoc]
    exact (hmap (Cursor.answers_listDir parent)).bind fun entries _ => .done _
  | extents ino stream =>
    rw [ApfsFs.serve, ApfsFs.extents, map_eq_pure_bind, bind_assoc]
    refine (Program.Answers.done _).bind fun node _ => ?_
    rw [bind_assoc]
    refine (Program.Answers.done _).bind fun _ _ => ?_
    rw [bind_assoc]
    refine (hmap (Cursor.answers_loadInode node)).bind fun inode _ => ?_
    rw [bind_assoc]
    exact (hmap (Cursor.answers_listExtents inode.privateId)).bind fun exts _ => .done _
  | lookup parent name =>
    rw [ApfsFs.serve, ApfsFs.lookup, map_eq_pure_bind, bind_assoc]
    refine (Program.Answers.done _).bind fun parent _ => ?_
    cases fromUtf8 name with
    | none => exact .done _
    | some text =>
      dsimp only
      rw [bind_assoc]
      exact (hmap (Cursor.answers_lookupChild parent text)).bind fun found _ => .done _
  | nodeMeta ino =>
    rw [ApfsFs.serve, ApfsFs.nodeMeta, map_eq_pure_bind, bind_assoc]
    refine (Program.Answers.done _).bind fun node _ => ?_
    rw [bind_assoc]
    refine (hmap (Cursor.answers_loadInode node)).bind fun inode _ => ?_
    rw [bind_assoc]
    exact (hmap (Cursor.answers_dataSize inode)).bind fun size _ => .done _
  | readAt ino stream off buf =>
    rw [ApfsFs.serve, ApfsFs.readAt, map_eq_pure_bind, bind_assoc]
    refine (Program.Answers.done _).bind fun node _ => ?_
    rw [bind_assoc]
    refine (Program.Answers.done _).bind fun _ _ => ?_
    rw [bind_assoc]
    refine (hmap (Cursor.answers_loadInode node)).bind fun inode _ => ?_
    rw [bind_assoc]
    exact (hmap (Cursor.answers_readData inode)).bind fun data _ => .done _
  | readLink ino cap => exact .done _
  | deleted => exact .done _
  | unallocated => exact .done _

/-- An operation that is settled before the lock is settled as it is alone. -/
theorem serve_of_beforeLock {q : Request} {x : VfsResult Response}
    (h : fs.beforeLock q = some x) : fs.serve host img q = x := by
  cases q with
  | readDir ino =>
    cases ino with
    | apfsOid oid xid => cases h
    | foreign debug => exact Option.some.inj h
  | extents ino stream =>
    cases ino with
    | foreign debug => exact Option.some.inj h
    | apfsOid oid xid =>
      cases stream with
      | default => cases h
      | named debug => exact Option.some.inj h
  | lookup parent name =>
    cases parent with
    | foreign debug => exact Option.some.inj h
    | apfsOid oid xid =>
      rw [ApfsFs.beforeLock, oidOf] at h
      rw [ApfsFs.serve, ApfsFs.lookup, oidOf, ok_bind]
      cases hname : fromUtf8 name with
      | none =>
        rw [hname] at h
        exact Option.some.inj h
      | some text =>
        rw [hname] at h
        cases h
  | nodeMeta ino =>
    cases ino with
    | apfsOid oid xid => cases h
    | foreign debug => exact Option.some.inj h
  | readAt ino stream off buf =>
    cases ino with
    | foreign debug => exact Option.some.inj h
    | apfsOid oid xid =>
      cases stream with
      | default => cases h
      | named debug => exact Option.some.inj h
  | readLink ino cap => exact Option.some.inj h
  | deleted => exact Option.some.inj h
  | unallocated => exact Option.some.inj h

/-- What fails by name is returned as an error. -/
theorem errorsIn_mapErr {α : Type} {x : Result α} (h : Named x) :
    ErrorsIn (fun s => ∃ e, s = Stop.error e) (mapErr x) := by
  intro s hs
  cases x with
  | ok a => cases hs
  | error f =>
    cases hs
    obtain ⟨e, rfl⟩ := h f rfl
    cases e <;> exact ⟨_, rfl⟩

/-- No operation panics. -/
theorem errorsIn_serve (q : Request) :
    ErrorsIn (fun s => ∃ e, s = Stop.error e) (fs.serve host img q) := by
  have hoid : ∀ ino, ErrorsIn (fun s => ∃ e, s = Stop.error e) (oidOf ino) := by
    intro ino
    cases ino with
    | apfsOid oid xid => exact .ok oid
    | foreign debug => exact .error ⟨_, rfl⟩
  have hstream : ∀ stream,
      ErrorsIn (fun s => ∃ e, s = Stop.error e) (requireDefaultStream stream) := by
    intro stream
    cases stream with
    | default => exact .ok ()
    | named debug => exact .error ⟨_, rfl⟩
  have hinode : ∀ node, Named (loadInode img fs.volume node fs.blockSize) := fun node =>
    named_loadInode img fs.volume fs.blockSize node
  cases q with
  | readDir ino =>
    refine ErrorsIn.map ((hoid ino).bind fun parent _ => ?_) _
    exact (errorsIn_mapErr (named_listDir parent)).bind fun entries _ => .ok _
  | extents ino stream =>
    refine ErrorsIn.map ((hoid ino).bind fun node _ => (hstream stream).bind fun _ _ => ?_) _
    refine (errorsIn_mapErr (hinode node)).bind fun inode _ => ?_
    exact (errorsIn_mapErr (named_listExtents img fs.volume fs.blockSize _)).bind fun _ _ => .ok _
  | lookup parent name =>
    refine ErrorsIn.map ((hoid parent).bind fun oid _ => ?_) _
    cases fromUtf8 name with
    | none => exact .ok none
    | some text =>
      exact (errorsIn_mapErr ((named_walkFsTree img fs.volume fs.blockSize _).map _)).bind
        fun found _ => .ok _
  | nodeMeta ino =>
    refine ErrorsIn.map ((hoid ino).bind fun node _ => ?_) _
    refine (errorsIn_mapErr (hinode node)).bind fun inode _ => ?_
    exact (errorsIn_mapErr (named_dataSize host img fs.volume fs.blockSize inode)).bind
      fun _ _ => .ok _
  | readAt ino stream off buf =>
    refine ErrorsIn.map ((hoid ino).bind fun node _ => (hstream stream).bind fun _ _ => ?_) _
    refine (errorsIn_mapErr (hinode node)).bind fun inode _ => ?_
    exact (errorsIn_mapErr (named_readData host img fs.volume fs.blockSize inode)).bind
      fun _ _ => .ok _
  | readLink ino cap => exact .ok _
  | deleted => exact .ok _
  | unallocated => exact .ok _

/-- The mounted volume serves every operation as it is alone. -/
theorem service_serves (fs : ApfsFs) (host : Host) (img : Image) :
    Service.Serves (fs.service host) (Cursor.reader img) (fs.serve host img) where
  answers q _ := answers_underLock q
  no_panic q e _ he := by
    rintro ⟨p, rfl⟩
    obtain ⟨e, he'⟩ := errorsIn_serve q _ he
    cases he'

/-- An operation answers alone what it answers among the others. -/
theorem alone_service (q : Request) :
    (fs.service host).alone (fs.serve host img) q = fs.serve host img q := by
  rw [Service.alone]
  cases h : (fs.service host).early q with
  | none => rfl
  | some x => exact (serve_of_beforeLock h).symm

end Alone

/-! ### All workers together -/

/-- What holds of the workers of a mounted volume, in a state of a run. -/
structure ServedAlone {ω : Type} [DecidableEq ω] (fs : ApfsFs) (host : Host) (img : Image)
    (s : Service.State ℕ ω Cursor.Command Cursor.Reply (Stop VfsError) Response Request) :
    Prop where
  /-- Every answer is the one the operation has alone. -/
  answers : ∀ w q x, (w, q, x) ∈ s.answered → x = fs.serve host img q
  /-- Each worker's operations are answered once each, in order; the last may be pending. -/
  order : ∀ w, Service.requestsOf w s.asked =
    (s.phase w).pending ++ Service.answersTo w s.answered
  /-- At most one worker is at the reader. -/
  exclusive : ∀ w w' q q' p p', s.phase w = .running q p → s.phase w' = .running q' p' → w = w'
  /-- The lock is not poisoned. -/
  sound : s.poisoned = false
  /-- No worker waits in vain. -/
  progress : ∀ w q, (s.phase w = .waiting q ∨ ∃ p, s.phase w = .running q p) →
    ∃ t, Service.Run (fs.service host) (Cursor.reader img) s t ∧
      (w, q, fs.serve host img q) ∈ t.answered

/-- **Workers are answered as if alone.** However many workers share a mounted volume, from
whatever position its reader starts, and however their steps interleave, every operation answers
what it answers alone. -/
theorem workers_answered_as_alone {ω : Type} [DecidableEq ω] (fs : ApfsFs) (host : Host)
    (img : Image) (pos : ℕ)
    (s : Service.State ℕ ω Cursor.Command Cursor.Reply (Stop VfsError) Response Request)
    (hrun : Service.Run (fs.service host) (Cursor.reader img) (Service.start pos) s) :
    ServedAlone fs host img s := by
  have hsafe := (Service.safe_start pos).run (service_serves fs host img) hrun
  refine ⟨fun w q x hx => ?_, hsafe.order, fun w w' q q' p p' => hsafe.unique, hsafe.sound,
    fun w q hw => ?_⟩
  · exact (hsafe.answers _ hx).trans (alone_service q)
  · obtain ⟨t, ht, hanswered⟩ := hsafe.exists_answer (service_serves fs host img) hw
    rw [alone_service] at hanswered
    exact ⟨t, ht, hanswered⟩

/-- A read of the sample file. -/
private def sampleRead : Request :=
  .readAt (.apfsOid 16 1) .default 1 [9, 9, 9]

/-- Before any request, with the reader at position 7. -/
private def sampleStart :
    Service.State ℕ Bool Cursor.Command Cursor.Reply (Stop VfsError) Response Request :=
  Service.start 7

/-- One worker waits for the lock with the read. -/
private def sampleAsked :
    Service.State ℕ Bool Cursor.Command Cursor.Reply (Stop VfsError) Response Request :=
  { sampleStart.become true (.waiting sampleRead) with asked := [(true, sampleRead)] }

/-- It has the lock, and the other one looks up a name that is not UTF-8. -/
private def sampleBusy :
    Service.State ℕ Bool Cursor.Command Cursor.Reply (Stop VfsError) Response Request :=
  let held := { sampleAsked.become true (.running sampleRead (sampleFs.underLock sampleHost
    sampleRead)) with lock := some true }
  { held.become false (.waiting (.lookup (.apfsOid 2 1) [0xFF])) with
    asked := [(false, .lookup (.apfsOid 2 1) [0xFF]), (true, sampleRead)] }

private theorem sampleBusy_reached :
    Service.Run (sampleFs.service sampleHost) (Cursor.reader sampleImage) sampleStart sampleBusy :=
  ((Service.Run.refl sampleStart).tail (.ask sampleRead rfl)).tail
    (.acquire (s := sampleAsked) (w := true) (q := sampleRead) rfl rfl rfl rfl) |>.tail
    (.ask (w := false) (Request.lookup (.apfsOid 2 1) [0xFF]) rfl)

/-- The worker at the reader is answered with the window that is there. -/
theorem sample_worker_answered :
    ∃ t, Service.Run (sampleFs.service sampleHost) (Cursor.reader sampleImage) sampleBusy t ∧
      (true, sampleRead, .ok (.window 2 [66, 67, 9])) ∈ t.answered := by
  have hserved := workers_answered_as_alone sampleFs sampleHost sampleImage 7 sampleBusy
    sampleBusy_reached
  have hanswer : sampleFs.serve sampleHost sampleImage sampleRead =
      .ok (.window 2 [66, 67, 9]) := by
    decide +kernel
  rw [← hanswer]
  exact hserved.progress true sampleRead (.inr ⟨_, rfl⟩)

end ApfsCore
