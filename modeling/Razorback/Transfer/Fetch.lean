import Razorback.Base.Runs
import Razorback.Transfer.Requests

/-! Fetching a block: `Transfer_Fetch` of `transfer/core.c` over the File, SSH and HTTP transports, and the part of
`Inspection_Process_Message` that fetches a block and frees it. The results of the calls outside the program come with
each attempt. The names of files, which are freed, and telemetry are left out. -/

namespace Razorback.Transfer
open Runs List

/-! ### What a fetch makes -/

/-- The temporary files that exist, the open `FILE`s and the mappings. -/
structure World where
  next : ℕ
  temps : List ℕ
  files : List ℕ
  maps : List ℕ
  deriving DecidableEq

inductive FetchFault
  | closedTwice | unmappedTwice
  deriving DecidableEq

namespace World

def empty : World := ⟨0, [], [], []⟩

def mkstemp (w : World) : ℕ × World := (w.next, { w with next := w.next + 1, temps := w.next :: w.temps })

def remove (k : ℕ) (w : World) : World := { w with temps := w.temps.erase k }

def fopen (w : World) : ℕ × World := (w.next, { w with next := w.next + 1, files := w.next :: w.files })

def fclose (f : ℕ) (w : World) : Except FetchFault World :=
  if f ∈ w.files then .ok { w with files := w.files.erase f } else .error .closedTwice

def mmap (w : World) : ℕ × World := (w.next, { w with next := w.next + 1, maps := w.next :: w.maps })

def munmap (m : ℕ) (w : World) : Except FetchFault World :=
  if m ∈ w.maps then .ok { w with maps := w.maps.erase m } else .error .unmappedTwice

end World

inductive FileName
  /-- The block's path in the block store. -/
  | store
  | temp (k : ℕ)
  deriving DecidableEq

/-- `block->data`: the mapping and the `FILE`, each with what it holds. -/
structure BlockData where
  pointer : Option (ℕ × Bytes)
  file : Option (ℕ × Bytes)
  fileName : Option FileName
  tempFile : Bool
  deriving DecidableEq

/-- How the calls of one attempt go. -/
structure Fetch where
  contextOk : Bool
  sessionOk : Bool
  checkOk : Bool
  nameOk : Bool
  canonicalOk : Bool
  pathOk : Bool
  openOk : Bool
  statOk : Bool
  tempNameOk : Bool
  mkstempOk : Bool
  fdopenOk : Bool
  /-- `sftp_read`: an error, or a limit to the bytes it returns beyond the first. -/
  reads : ℕ → Option ℕ
  addresses : List Address
  /-- What a temporary file holds of the bytes written to it; no write is checked but for its count. -/
  kept : Bytes → Bytes
  fopenOk : Bool
  mmapOk : Bool

section
variable (a : Fetch) (iLength : ℕ)

/-- `Transfer_Prepare_File` on a file that holds `content`; `mmap` of no bytes fails. -/
def prepareFile (name : FileName) (temp : Bool) (content : Bytes) (b : BlockData) (w : World) :
    Except FetchFault (TransferStatus × BlockData × World) :=
  if !a.fopenOk then .ok (.failLocal, { b with file := none }, w)
  else
    let (f, w) := w.fopen
    let b := { b with file := some (f, content), fileName := some name, tempFile := temp }
    if a.mmapOk ∧ iLength ≠ 0 then
      let (m, w) := w.mmap
      .ok (.ok, { b with pointer := some (m, content.take iLength) }, w)
    else do
      -- `data.file` is left as it is
      let w ← w.fclose f
      return (.failLocal, { b with pointer := none }, w)

/-- `Transfer_File_Fetch`; the size that `fstat` finds is not looked at. -/
def fileFetch (c : Bytes) (b : BlockData) (w : World) : Except FetchFault (TransferStatus × BlockData × World) :=
  if !a.nameOk then .ok (.failLocal, b, w)
  else if !a.pathOk then .ok (.failLocal, b, w)
  else if !a.openOk then .ok (.failLocal, b, w)
  else if !a.statOk then .ok (.failLocal, b, w)
  else prepareFile a iLength .store false c b w

/-- A temporary file is made, filled and prepared, or removed if it could not be filled. -/
def intoTemp (filled : Except TransferStatus Bytes) (b : BlockData) (w : World) :
    Except FetchFault (TransferStatus × BlockData × World) :=
  if !a.tempNameOk then .ok (.failLocal, b, w)
  else if !a.mkstempOk then .ok (.failLocal, b, w)
  else
    let (k, w) := w.mkstemp
    if !a.fdopenOk then .ok (.failLocal, b, w.remove k)
    else do
      let (f, w) := w.fopen
      let w ← w.fclose f
      match filled with
      | .error status => return (status, b, w.remove k)
      | .ok out => prepareFile a iLength (.temp k) true (a.kept out) b w

/-- The loop over `sftp_read` with buffers of 1024 bytes, from round `i` on; it stops at the end of the file. -/
def readLoop (reads : ℕ → Option ℕ) : ℕ → ℕ → Bytes → Bytes → Option Bytes
  | 0, _, out, _ => some out
  | fuel + 1, i, out, unread =>
    if out.length < iLength then
      match reads i with
      | none => none
      | some more =>
        let got := unread.take (min (more + 1) 1024)
        if got = [] then some out else readLoop reads fuel (i + 1) (out ++ got) (unread.drop got.length)
    else some out

def sshRead (c : Bytes) : Except TransferStatus Bytes :=
  match readLoop iLength a.reads (c.length + 1) 0 [] c with
  | none => .error .failDispatcher
  | some out => if out.length ≠ iLength then .error .failDispatcher else .ok out

def sshFetch (c : Bytes) (b : BlockData) (w : World) : Except FetchFault (TransferStatus × BlockData × World) :=
  if !a.contextOk then .ok (.failLocal, b, w)
  else if !a.sessionOk then .ok (.failDispatcher, b, w)
  else if !a.checkOk then .ok (.failDispatcher, b, w)
  else if !a.nameOk then .ok (.failLocal, b, w)
  else if !a.canonicalOk then .ok (.failDispatcher, b, w)
  else if !a.pathOk then .ok (.failLocal, b, w)
  else if !a.openOk then .ok (.failDispatcher, b, w)
  else intoTemp a iLength (sshRead a iLength c) b w

/-- A request to a server that has the content `c` receives all of it unless it fails. -/
def Address.serving (c : Bytes) (address : Address) : Address := fun i =>
  { address i with size := if (address i).performOk then c.length else min (address i).size c.length }

def httpRead (c : Bytes) : Except TransferStatus Bytes :=
  match (httpWalk (· == iLength) 0 (a.addresses.map (Address.serving c)) .failLocal).1 with
  | .ok => .ok (c.take iLength)
  | status => .error status

def httpFetchBlock (c : Bytes) (b : BlockData) (w : World) : Except FetchFault (TransferStatus × BlockData × World) :=
  if !a.nameOk then .ok (.failLocal, b, w) else intoTemp a iLength (httpRead a iLength c) b w

end

inductive Protocol
  | file | ssh | http
  deriving DecidableEq

def Protocol.fetch : Protocol → Fetch → ℕ → Bytes → BlockData → World →
    Except FetchFault (TransferStatus × BlockData × World)
  | .file => fileFetch
  | .ssh => sshFetch
  | .http => httpFetchBlock

/-- The loop over the attempts, from attempt `i` with `fuel` of them left. -/
def fetchAttempts (trans : Protocol) (iLength : ℕ) (c : Bytes) (attempts : ℕ → Fetch) :
    ℕ → ℕ → TransferStatus → BlockData → World → Except FetchFault (TransferStatus × BlockData × World)
  | 0, _, status, b, w => .ok (status, b, w)
  | fuel + 1, i, _, b, w => do
    let (status, b, w) ← trans.fetch (attempts i) iLength c b w
    if status = .ok then return (status, b, w) else fetchAttempts trans iLength c attempts fuel (i + 1) status b w

/-- A dispatcher with the content it stores under the block's name; there is no transport if its data or its descriptor is
missing. -/
structure Source where
  trans : Option Protocol
  content : Bytes
  attempts : ℕ → Fetch

def transferFetch (iLength : ℕ) (source : Source) (b : BlockData) (w : World) :
    Except FetchFault (TransferStatus × BlockData × World) :=
  match source.trans with
  | none => .ok (.failLocal, b, w)
  | some protocol => fetchAttempts protocol iLength source.content source.attempts retries 0 .failLocal b w

/-! ### What a fetch leaves -/

/-- The block's file is the stored one, or a temporary one that is new. -/
def Named (b : BlockData) (w w' : World) : Prop :=
  b.tempFile = false ∧ w'.temps = w.temps ∨
    ∃ k, b.tempFile = true ∧ b.fileName = some (.temp k) ∧ w'.temps = k :: w.temps

/-- A fetch loads the block, whose file and mapping are then open beside what was open, or fails and leaves nothing open. If
it is `tidy`, it leaves no temporary file but the block's. -/
inductive Fetches (loads : Bytes → Prop) (tidy : Prop) (iLength : ℕ) (w : World) :
    Except FetchFault (TransferStatus × BlockData × World) → Prop
  | fail {status : TransferStatus} {b : BlockData} {w' : World} (hstatus : status ≠ .ok) (hfiles : w'.files = w.files)
      (hmaps : w'.maps = w.maps) (htemps : tidy → w'.temps = w.temps) : Fetches loads tidy iLength w (.ok (status, b, w'))
  | load {content : Bytes} {f m : ℕ} {b : BlockData} {w' : World} (hcontent : loads content) (hfile : b.file = some (f, content))
      (hfiles : w'.files = f :: w.files) (hpointer : b.pointer = some (m, content.take iLength))
      (hmaps : w'.maps = m :: w.maps) (htemps : tidy → Named b w w') :
      Fetches loads tidy iLength w (.ok (.ok, b, w'))

/-- `Transfer_Prepare_File` succeeds if it comes to it. -/
def Fetch.Ready (a : Fetch) (iLength : ℕ) : Prop := a.fopenOk = true ∧ a.mmapOk = true ∧ iLength ≠ 0

section
variable {iLength i f k fuel : ℕ} {a : Fetch} {c content : Bytes} {b b' : BlockData} {w w' : World}
  {status : TransferStatus} {loads loads' : Bytes → Prop} {tidy tidy' : Prop} {fs : List ℕ}
  {r : Except FetchFault (TransferStatus × BlockData × World)}
  {next : TransferStatus → BlockData → World → Except FetchFault (TransferStatus × BlockData × World)}

theorem Fetches.mono (h : Fetches loads tidy iLength w r) (hloads : ∀ content, loads content → loads' content)
    (htidy : tidy' → tidy) : Fetches loads' tidy' iLength w r := by
  cases h with
  | fail hstatus hfiles hmaps htemps => exact .fail hstatus hfiles hmaps (htemps ∘ htidy)
  | load hcontent hfile hfiles hpointer hmaps htemps =>
    exact .load (hloads _ hcontent) hfile hfiles hpointer hmaps (htemps ∘ htidy)

theorem Fetches.stay (hstatus : status ≠ .ok) : Fetches loads tidy iLength w (.ok (status, b, w)) :=
  .fail hstatus rfl rfl fun _ => rfl

theorem Fetches.after (h : Fetches loads tidy iLength w' r) (hfiles : w'.files = w.files) (hmaps : w'.maps = w.maps)
    (htemps : tidy → w'.temps = w.temps) : Fetches loads tidy iLength w r := by
  cases h with
  | fail hstatus hfiles' hmaps' htemps' =>
    exact .fail hstatus (hfiles'.trans hfiles) (hmaps'.trans hmaps) fun ht => (htemps' ht).trans (htemps ht)
  | load hcontent hfile hfiles' hpointer hmaps' htemps' =>
    refine .load hcontent hfile (hfiles ▸ hfiles') hpointer (hmaps ▸ hmaps') fun ht => ?_
    have hnamed := htemps' ht
    unfold Named at hnamed ⊢
    rwa [htemps ht] at hnamed

theorem Fetches.orElse (h : Fetches loads tidy iLength w r)
    (hnext : ∀ status b w', status ≠ .ok → Fetches loads tidy iLength w' (next status b w')) :
    Fetches loads tidy iLength w (r >>= fun p => if p.1 = .ok then pure p else next p.1 p.2.1 p.2.2) := by
  cases h with
  | @fail status b w' hstatus hfiles hmaps htemps =>
    rw [ok_bind, if_neg hstatus]
    exact (hnext status b w' hstatus).after hfiles hmaps htemps
  | load hcontent hfile hfiles hpointer hmaps htemps =>
    exact .load hcontent hfile hfiles hpointer hmaps htemps

theorem World.fclose_head (h : w.files = f :: fs) : w.fclose f = .ok { w with files := fs } := by
  simp [fclose, h]

theorem World.fclose_fopen (w : World) : w.fopen.2.fclose w.fopen.1 = .ok { w.fopen.2 with files := w.files } :=
  fclose_head rfl

theorem World.munmap_head (h : w.maps = f :: fs) : w.munmap f = .ok { w with maps := fs } := by
  simp [munmap, h]

theorem prepareFile_fetches (hfiles : w.files = w₀.files) (hmaps : w.maps = w₀.maps)
    (hfail : tidy → ¬a.Ready iLength → w.temps = w₀.temps)
    (hload : tidy → ∀ b' w', b'.tempFile = temp → b'.fileName = some name → w'.temps = w.temps → Named b' w₀ w') :
    Fetches (· = content) tidy iLength w₀ (prepareFile a iLength name temp content b w) := by
  unfold prepareFile
  cases hopen : a.fopenOk with
  | false => exact .fail (by decide) hfiles hmaps fun ht => hfail ht (by simp [Fetch.Ready, hopen])
  | true =>
    by_cases hmap : a.mmapOk ∧ iLength ≠ 0
    · simp only [if_pos hmap]
      exact .load rfl rfl (congrArg _ hfiles) rfl (congrArg _ hmaps) fun ht => hload ht _ _ rfl rfl rfl
    · simp only [if_neg hmap, w.fclose_fopen]
      exact .fail (by decide) hfiles hmaps fun ht => hfail ht fun hready => hmap hready.2

theorem fileFetch_fetches : Fetches (· = c) tidy iLength w (fileFetch a iLength c b w) := by
  unfold fileFetch
  split_ifs
  · exact .stay (by decide)
  · exact .stay (by decide)
  · exact .stay (by decide)
  · exact .stay (by decide)
  · exact prepareFile_fetches rfl rfl (fun _ _ => rfl) fun _ _ _ htemp _ htemps => .inl ⟨htemp, htemps⟩

theorem intoTemp_fetches (hfilled : filled ≠ .error .ok) :
    Fetches (fun content => ∃ out, filled = .ok out ∧ content = a.kept out) (a.Ready iLength) iLength w
      (intoTemp a iLength filled b w) := by
  unfold intoTemp
  split_ifs
  · exact .stay (by decide)
  · exact .stay (by decide)
  · exact .fail (by decide) rfl rfl fun _ => by simp [World.remove]
  · simp only [World.fclose_fopen]
    cases filled with
    | error status =>
      refine .fail (fun hst => hfilled (by rw [hst])) rfl rfl fun _ => ?_
      simp [World.mkstemp, World.fopen, World.remove]
    | ok out =>
      have hprepare : Fetches (· = a.kept out) (a.Ready iLength) iLength w (prepareFile a iLength (.temp w.next) true (a.kept out) b
          { w.mkstemp.2.fopen.2 with files := w.files }) :=
        prepareFile_fetches rfl rfl (fun hready h => absurd hready h) fun _ _ _ htemp hname htemps =>
          .inr ⟨w.next, htemp, hname, htemps⟩
      exact hprepare.mono (fun content hc => ⟨out, rfl, hc⟩) id

theorem sshRead_ne : sshRead a iLength c ≠ .error .ok := by
  unfold sshRead
  split
  · nofun
  · split_ifs <;> nofun

theorem httpRead_ne : httpRead a iLength c ≠ .error .ok := by
  unfold httpRead
  split
  · nofun
  · rename_i hne
    exact fun he => hne (Except.error.inj he)

end

/-- What the file of a block holds once it is loaded. -/
def Protocol.Loads (trans : Protocol) (a : Fetch) (iLength : ℕ) (c content : Bytes) : Prop :=
  match trans with
  | .file => content = c
  | .ssh => ∃ out, sshRead a iLength c = .ok out ∧ content = a.kept out
  | .http => ∃ out, httpRead a iLength c = .ok out ∧ content = a.kept out

/-- An attempt that makes a temporary file can open and map it. -/
def Protocol.Prepares (trans : Protocol) (a : Fetch) (iLength : ℕ) : Prop := trans ≠ .file → a.Ready iLength

section
variable {iLength i fuel : ℕ} {a : Fetch} {attempts : ℕ → Fetch} {c : Bytes} {b : BlockData} {w : World} {status : TransferStatus}
  {source : Source}

theorem Protocol.fetch_fetches (protocol : Protocol) :
    Fetches (protocol.Loads a iLength c) (protocol.Prepares a iLength) iLength w (protocol.fetch a iLength c b w) := by
  cases protocol with
  | file => exact fileFetch_fetches
  | ssh =>
    change Fetches _ _ _ _ (sshFetch a iLength c b w)
    unfold sshFetch
    split_ifs
    · exact .stay (by decide)
    · exact .stay (by decide)
    · exact .stay (by decide)
    · exact .stay (by decide)
    · exact .stay (by decide)
    · exact .stay (by decide)
    · exact .stay (by decide)
    · exact (intoTemp_fetches sshRead_ne).mono (fun _ => id) fun ht => ht nofun
  | http =>
    change Fetches _ _ _ _ (httpFetchBlock a iLength c b w)
    unfold httpFetchBlock
    split_ifs
    · exact .stay (by decide)
    · exact (intoTemp_fetches httpRead_ne).mono (fun _ => id) fun ht => ht nofun

theorem fetchAttempts_fetches (protocol : Protocol) (hstatus : status ≠ .ok) :
    Fetches (fun content => ∃ i, protocol.Loads (attempts i) iLength c content)
      (∀ i, protocol.Prepares (attempts i) iLength) iLength w (fetchAttempts protocol iLength c attempts fuel i status b w) := by
  induction fuel generalizing i status b w with
  | zero => exact .stay hstatus
  | succ fuel ih =>
    have hfirst : Fetches (fun content => ∃ i, protocol.Loads (attempts i) iLength c content)
        (∀ i, protocol.Prepares (attempts i) iLength) iLength w (protocol.fetch (attempts i) iLength c b w) :=
      protocol.fetch_fetches.mono (fun _ hc => ⟨i, hc⟩) fun ht => ht i
    exact hfirst.orElse fun _ _ _ hne => ih hne

end

/-! ### The block is what the dispatcher stores -/

/-- What the checks of a transport leave to the stored content, to the writes and to libcurl. -/
def Protocol.Faithful (trans : Protocol) (a : Fetch) (iLength : ℕ) (c : Bytes) : Prop :=
  match trans with
  | .file => c.length = iLength
  | .ssh => c.length ≤ iLength ∧ a.kept = id
  | .http => Honest (· == iLength) (a.addresses.map (Address.serving c)) ∧ a.kept = id

/-- No call fails but for its arguments. -/
structure Fetch.NoFailure (a : Fetch) : Prop where
  session : a.contextOk = true ∧ a.sessionOk = true ∧ a.checkOk = true ∧ a.canonicalOk = true
  file : a.nameOk = true ∧ a.pathOk = true ∧ a.openOk = true ∧ a.statOk = true
  temp : a.tempNameOk = true ∧ a.mkstempOk = true ∧ a.fdopenOk = true
  reads : ∀ i, a.reads i ≠ none
  addresses : a.addresses ≠ []
  requests : ∀ address ∈ a.addresses, ∀ i,
    (address i).setupOk = true ∧ (address i).performOk = true ∧ (address i).infoOk = true ∧ (address i).code = 200
  prepare : a.fopenOk = true ∧ a.mmapOk = true

section
variable {iLength i fuel : ℕ} {a : Fetch} {attempts : ℕ → Fetch} {c out unread content : Bytes} {b : BlockData} {w : World}
  {reads : ℕ → Option ℕ}

theorem readLoop_prefix (h : readLoop iLength reads fuel i out unread = some content) : content <+: out ++ unread := by
  induction fuel generalizing i out unread with
  | zero =>
    cases h
    exact prefix_append _ _
  | succ fuel ih =>
    rw [readLoop] at h
    split_ifs at h
    · cases hread : reads i with
      | none => simp [hread] at h
      | some more =>
        rw [hread] at h
        dsimp only at h
        split_ifs at h with hgot
        · cases h
          exact prefix_append _ _
        · have hnext := ih h
          rwa [append_assoc, prefix_iff_eq_append.mp ( take_prefix _ _)] at hnext
    · cases h
      exact prefix_append _ _

theorem readLoop_all (hreads : ∀ i, reads i ≠ none) (hlength : out.length + unread.length = iLength) (hfuel : unread.length < fuel) :
    readLoop iLength reads fuel i out unread = some (out ++ unread) := by
  induction fuel generalizing i out unread with
  | zero => cases hfuel
  | succ fuel ih =>
    rw [readLoop]
    cases unread with
    | nil =>
      rw [if_neg (by simpa using Nat.le_of_eq hlength.symm), append_nil]
    | cons x rest =>
      obtain ⟨more, hmore⟩ := Option.ne_none_iff_exists'.mp (hreads i)
      have hgot : (x :: rest).take (min (more + 1) 1024) = x :: rest.take (min more 1023) := by
        rw [show min (more + 1) 1024 = min more 1023 + 1 by omega, take_succ_cons]
      have hall : x :: rest.take (min more 1023) ++ rest.drop (rest.take (min more 1023)).length = x :: rest :=
        congrArg (x :: ·) (prefix_iff_eq_append.mp ( take_prefix _ _))
      have hsum := congrArg length hall
      simp only [length_append, length_cons] at hsum hlength hfuel
      rw [if_pos (by omega), hmore]
      simp only [hgot, reduceCtorEq, if_false, length_cons, drop_succ_cons]
      rw [ih (by simp only [length_append, length_cons]; omega) (by omega), append_assoc, hall]

theorem sshRead_all (ha : a.NoFailure) (hc : c.length = iLength) : sshRead a iLength c = .ok c := by
  have hread : readLoop iLength a.reads (c.length + 1) 0 [] c = some c :=
    readLoop_all ha.reads (by simpa) (Nat.lt_succ_self _)
  rw [sshRead, hread]
  exact if_neg (not_not.mpr hc)

theorem sshRead_faithful (hc : c.length ≤ iLength) (h : sshRead a iLength c = .ok out) : out = c ∧ c.length = iLength := by
  unfold sshRead at h
  split at h
  · cases h
  · rename_i read hread
    split_ifs at h with hlength
    cases h
    have hprefix : out <+: c := readLoop_prefix hread
    have hle := hprefix.length_le
    have hsame : out = c := hprefix.eq_of_length (by omega)
    exact ⟨hsame, hsame ▸ not_not.mp hlength⟩

theorem httpRead_all (ha : a.NoFailure) (hc : c.length = iLength) : httpRead a iLength c = .ok c := by
  obtain ⟨address, rest, hcons⟩ := exists_cons_of_ne_nil ha.addresses
  have hwalk : (httpWalk (· == iLength) 0 (a.addresses.map (.serving c)) .failLocal).1 = .ok := by
    have hrequest := ha.requests address (by simp [hcons]) 0
    simp [hcons, httpWalk, httpTries, maxTries, httpTry, Address.serving, hrequest, hc]
  rw [httpRead, hwalk, ← hc, take_length]

theorem httpRead_faithful (hc : Honest (· == iLength) (a.addresses.map (Address.serving c))) (h : httpRead a iLength c = .ok out) :
    out = c ∧ c.length = iLength := by
  unfold httpRead at h
  split at h
  · rename_i hwalk
    cases h
    rcases @httpWalk_endsWell (· == iLength) 0 (a.addresses.map (.serving c)) .failLocal (by decide) with
      ⟨before, k, p, _, he, haccepted, _⟩ | ⟨hne, _⟩
    · obtain ⟨address, hin, j, hj⟩ := mem_httpWalk (p := (k, p)) (by rw [he]; simp)
      obtain ⟨address', _, rfl⟩ := mem_map.mp hin
      have hp : p = address'.serving c j := hj
      subst hp
      have hperform : (address' j).performOk := hc _ hin j haccepted
      have hsize : c.length = iLength := by simpa [Address.serving, hperform] using haccepted.2.2.2
      rw [← hsize, take_length]
      exact ⟨rfl, rfl⟩
    · exact absurd hwalk hne
  · cases h

theorem Protocol.Faithful.loads {trans : Protocol} (ha : trans.Faithful a iLength c) (h : trans.Loads a iLength c content) :
    content = c ∧ c.length = iLength := by
  cases trans with
  | file => exact ⟨h, ha⟩
  | ssh =>
    obtain ⟨out, hout, rfl⟩ := h
    rw [ha.2]
    exact sshRead_faithful ha.1 hout
  | http =>
    obtain ⟨out, hout, rfl⟩ := h
    rw [ha.2]
    exact httpRead_faithful ha.1 hout

theorem prepareFile_ready (ha : a.Ready iLength) :
    ∃ b' w', prepareFile a iLength name temp content b w = .ok (.ok, b', w') := by
  unfold prepareFile
  simp only [ha.1, if_pos ha.2]
  exact ⟨_, _, rfl⟩

theorem intoTemp_ready (htemp : a.tempNameOk ∧ a.mkstempOk ∧ a.fdopenOk) (ha : a.Ready iLength) :
    ∃ b' w', intoTemp a iLength (.ok out) b w = .ok (.ok, b', w') := by
  unfold intoTemp
  simp only [htemp, World.fclose_fopen]
  exact prepareFile_ready ha

theorem Fetch.NoFailure.fetch (ha : a.NoFailure) (hc : c.length = iLength) (hzero : iLength ≠ 0) (protocol : Protocol) :
    ∃ b' w', protocol.fetch a iLength c b w = .ok (.ok, b', w') := by
  have hready : a.Ready iLength := ⟨ha.prepare.1, ha.prepare.2, hzero⟩
  cases protocol with
  | file =>
    simp only [Protocol.fetch, fileFetch, ha.file]
    exact prepareFile_ready hready
  | ssh =>
    simp only [Protocol.fetch, sshFetch, ha.session, ha.file, sshRead_all ha hc]
    exact intoTemp_ready ha.temp hready
  | http =>
    simp only [Protocol.fetch, httpFetchBlock, ha.file, httpRead_all ha hc]
    exact intoTemp_ready ha.temp hready

end

def Fetch.smooth : Fetch :=
  ⟨true, true, true, true, true, true, true, true, true, true, true, fun _ => some 1023, [fun _ => ⟨true, true, true, 200, 0⟩],
    id, true, true⟩

def BlockData.empty : BlockData := ⟨none, none, none, false⟩

/-- `Transfer_Free`; `unlink(NULL)` fails. -/
def transferFree (b : BlockData) (w : World) : Except FetchFault World := do
  let w ← match b.pointer with
    | some (m, _) => w.munmap m
    | none => .ok w
  let w ← match b.file with
    | some (f, _) => w.fclose f
    | none => .ok w
  match b.tempFile, b.fileName with
  | true, some (.temp k) => return w.remove k
  | _, _ => return w

/-- The loop of `Inspection_Process_Message` over the dispatchers it gets, from round `i` on. -/
def fetchRounds (iLength : ℕ) (rounds : ℕ → Option Source) :
    ℕ → ℕ → TransferStatus → BlockData → World → Except FetchFault (TransferStatus × BlockData × World)
  | 0, _, status, b, w => .ok (status, b, w)
  | fuel + 1, i, status, b, w =>
    match rounds i with
    | none => .ok (status, b, w)
    | some source => do
      let (status, b, w) ← transferFetch iLength source b w
      if status = .ok then return (status, b, w) else fetchRounds iLength rounds fuel (i + 1) status b w

/-- How the calls after the fetch go. -/
structure Handling where
  messageOk : Bool
  eventIdOk : Bool
  blockCloneOk : Bool
  resultOk : Bool
  judgmentOk : Bool

/-- `Inspection_Process_Message` once the block is fetched. -/
def inspectBlock (h : Handling) (b : BlockData) (w : World) : Except FetchFault World :=
  if b.pointer = none ∨ b.fileName = none then transferFree b w
  else if !h.eventIdOk then transferFree b w
  else if !h.blockCloneOk then transferFree b w
  else
    let clone := b
    let b := { b with pointer := none, file := none, fileName := none }
    if h.resultOk && h.judgmentOk then do
      -- the clone is freed before the judgment is sent
      let w ← transferFree clone w
      transferFree b w
    else do
      -- the cleanup frees both
      let w ← transferFree clone w
      transferFree b w

/-- `Inspection_Process_Message`, of a message whose block has no data yet. -/
def processMessage (iLength : ℕ) (rounds : ℕ → Option Source) (h : Handling) (w : World) : Except FetchFault World :=
  if !h.messageOk then .ok w
  else do
    let (status, b, w) ← fetchRounds iLength rounds 20 0 .failLocal BlockData.empty w
    -- `destroyOriginalBlock` is not set
    if status ≠ .ok then return w else inspectBlock h b w

section
variable {iLength i fuel f m : ℕ} {rounds : ℕ → Option Source} {c content : Bytes} {b : BlockData} {w w' : World}
  {status : TransferStatus} {source : Source}

theorem transferFetch_fetches (iLength : ℕ) (source : Source) (b : BlockData) (w : World) :
    Fetches (fun _ => True) (∀ protocol, source.trans = some protocol → ∀ i, protocol.Prepares (source.attempts i) iLength) iLength w
      (transferFetch iLength source b w) := by
  obtain ⟨trans, c, attempts⟩ := source
  cases trans with
  | none => exact .stay (by decide)
  | some protocol => exact (fetchAttempts_fetches protocol (by decide)).mono (fun _ _ => trivial) fun ht => ht protocol rfl

theorem fetchRounds_fetches (hstatus : status ≠ .ok) :
    Fetches (fun _ => True) (∀ i source, rounds i = some source → ∀ protocol, source.trans = some protocol →
      ∀ j, protocol.Prepares (source.attempts j) iLength) iLength w (fetchRounds iLength rounds fuel i status b w) := by
  induction fuel generalizing i status b w with
  | zero => exact .stay hstatus
  | succ fuel ih =>
    rw [fetchRounds]
    cases hround : rounds i with
    | none => exact .stay hstatus
    | some source =>
      exact .orElse ((transferFetch_fetches iLength source b w).mono (fun _ h => h) fun ht => ht i source hround)
        fun _ _ _ hne => ih hne

theorem transferFree_loaded (hfile : b.file = some (f, content)) (hfiles : w'.files = f :: w.files)
    (hpointer : b.pointer = some (m, c)) (hmaps : w'.maps = m :: w.maps) :
    ∃ w'', transferFree b w' = .ok w'' ∧ w''.files = w.files ∧ w''.maps = w.maps ∧ (Named b w w' → w''.temps = w.temps) := by
  have hclose : World.fclose f { w' with maps := w.maps } = .ok { w' with maps := w.maps, files := w.files } :=
    World.fclose_head hfiles
  simp only [transferFree, hpointer, hfile, World.munmap_head hmaps, ok_bind, hclose]
  split
  · rename_i k htemp hname
    refine ⟨_, rfl, rfl, rfl, fun hnamed => ?_⟩
    rcases hnamed with ⟨hstore, _⟩ | ⟨k', _, hname', htemps⟩
    · exact absurd (htemp.symm.trans hstore) (by decide)
    · obtain rfl : k = k' := by simpa using hname.symm.trans hname'
      simp [World.remove, htemps]
  · rename_i hno
    refine ⟨_, rfl, rfl, rfl, fun hnamed => ?_⟩
    rcases hnamed with ⟨_, htemps⟩ | ⟨k', htemp, hname', _⟩
    · exact htemps
    · exact absurd hname' (hno k' htemp)

theorem inspectBlock_free (hfree : transferFree b w = .ok w') : inspectBlock h b w = .ok w' := by
  have hmoved : transferFree { b with pointer := none, file := none, fileName := none } w' = .ok w' := by
    simp [transferFree]
  unfold inspectBlock
  split_ifs <;> simp [hfree, hmoved]

end

/-- Every file and mapping that a message's block gets is given back once, and nothing is closed that is not open. Every
temporary file is removed if each one that was filled could be opened and mapped. -/
theorem inspection_leaves_nothing (iLength : ℕ) (rounds : ℕ → Option Source) (h : Handling) :
    ∃ w, processMessage iLength rounds h World.empty = .ok w ∧ w.files = [] ∧ w.maps = [] ∧
      ((∀ i source, rounds i = some source → ∀ protocol, source.trans = some protocol →
        ∀ j, protocol.Prepares (source.attempts j) iLength) → w.temps = []) := by
  unfold processMessage
  split_ifs
  · exact ⟨_, rfl, rfl, rfl, fun _ => rfl⟩
  have hfetches := @fetchRounds_fetches iLength 0 20 rounds BlockData.empty World.empty .failLocal (by decide)
  generalize fetchRounds iLength rounds 20 0 .failLocal BlockData.empty World.empty = r at hfetches
  cases hfetches with
  | fail hstatus hfiles hmaps htemps =>
    refine ⟨_, ?_, hfiles, hmaps, htemps⟩
    rw [ok_bind]
    exact if_pos hstatus
  | load _ hfile hfiles hpointer hmaps htemps =>
    obtain ⟨w, hfree, hfiles', hmaps', htemps'⟩ := transferFree_loaded hfile hfiles hpointer hmaps
    exact ⟨w, inspectBlock_free hfree, hfiles', hmaps', fun ht => htemps' (htemps ht)⟩

/-- The first mapping over HTTP fails; the temporary file of that attempt is still there when the message is done. -/
theorem inspection_leaves_temp_file :
    (∃ w, processMessage 2 (fun _ => some ⟨some .http, [1, 2], fun i => { Fetch.smooth with mmapOk := i ≠ 0 }⟩)
      ⟨true, true, true, true, true⟩ World.empty = .ok w ∧ w.temps = [0]) ∧
    ∃ w, processMessage 0 (fun i => if i = 0 then some ⟨some .ssh, [], fun _ => Fetch.smooth⟩ else none)
      ⟨true, true, true, true, true⟩ World.empty = .ok w ∧ w.temps ≠ [] :=
  ⟨⟨_, rfl, rfl⟩, _, rfl, by decide⟩

end Razorback.Transfer
