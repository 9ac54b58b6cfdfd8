import RDrive.Catalog
import RDrive.DepotServed
import Mathlib.Data.List.ReduceOption

/-! A client with its catalog, its key and its server: the catalog lists what the client
has on the server, whatever its commands and other clients' requests have been. -/
namespace RDrive.CatalogServed
open Catalog Crypto Session Depot

structure Home where
  disk : Option Catalog
  key : Bytes
  server : Host

def pulled : Reply → Bool
  | .file _ => true
  | _ => false

def Foreign (key : Bytes) : Depot.Request → Prop
  | .push slot _ => slot.clientKey ≠ key
  | .rotate old new => old ≠ key ∧ new ≠ key
  | _ => True

/- A command of the client with its request, if it gets to one, or somebody's request that
leaves the client's files alone. An id that is drawn is in no catalog yet. -/
inductive Errand (S : Session) (signing : Signing) : Home → Option Depot.Request → Home → Prop where
  | push {h : Home} {fileName answer uuid now fileKey fileId content reply after}
      (chosen : (readOrCreate h.disk).chooseId fileName answer uuid = .ok fileId)
      (drawn : (readOrCreate h.disk).fileMap uuid = none)
      (served : Exchange S signing h.server
        (.push ⟨h.key,fileKey,fileId⟩ ⟨fileName,content⟩,reply) after) :
      Errand S signing h (some (.push ⟨h.key,fileKey,fileId⟩ ⟨fileName,content⟩))
        ⟨(ClientCommand.execute h.disk (.push fileName answer uuid (decide (reply = .done)) now)).2,
          h.key,after⟩
  | stopped {h : Home} {fileName answer uuid now e}
      (failed : (readOrCreate h.disk).chooseId fileName answer uuid = .error e) :
      Errand S signing h none
        ⟨(ClientCommand.execute h.disk (.push fileName answer uuid false now)).2,h.key,h.server⟩
  | pull {h : Home} {fileKey fileId now reply after}
      (served : Exchange S signing h.server (.pull ⟨h.key,fileKey,fileId⟩,reply) after) :
      Errand S signing h (some (.pull ⟨h.key,fileKey,fileId⟩))
        ⟨(ClientCommand.execute h.disk (.pull fileId (pulled reply) now)).2,h.key,after⟩
  | rotate {h : Home} {new reply after}
      (served : Exchange S signing h.server (.rotate h.key new,reply) after) :
      Errand S signing h (some (.rotate h.key new))
        ⟨h.disk,if reply = .done then new else h.key,after⟩
  | aside {h : Home} {request reply after} (foreign : Foreign h.key request)
      (served : Exchange S signing h.server (request,reply) after) :
      Errand S signing h (some request) ⟨h.disk,h.key,after⟩

/- The ids of the catalog are those of the key's files, whatever their file keys, and with
the same names. -/
structure Lists (c : Catalog) (d : Depot) (key : Bytes) : Prop where
  there : ∀ id meta_, c.fileMap id = some meta_ →
    ∃ fileKey held, d.files ⟨key,fileKey,id⟩ = some held ∧ held.fileName = meta_.name
  known : ∀ fileKey id held, d.files ⟨key,fileKey,id⟩ = some held →
    ∃ meta_, c.fileMap id = some meta_ ∧ held.fileName = meta_.name

section
variable {T : Trade} {c : Catalog} {d : Depot} {key : Bytes} {open_ : Bool} {request : Depot.Request}

theorem foreignFollow {slot : Slot} (foreign : Foreign slot.clientKey request) :
    follow slot request = slot := by
  cases request with
  | rotate old new => exact if_neg (Ne.symm foreign.1)
  | _ => rfl

theorem foreignBefore {was slot : Slot} (foreign : Foreign slot.clientKey request)
    (follows : follow was request = slot) : was = slot := by
  cases request with
  | rotate old new =>
    simp only [follow] at follows
    split at follows
    · subst follows
      exact absurd rfl foreign.2
    · exact follows
  | _ => exact follows

theorem listsAside (lists : Lists c d key) (sound : Sound T d) (meant : T.meant d request)
    (foreign : Foreign key request) : Lists c (d.next open_ request) key where
  there id meta_ found := by
    obtain ⟨fileKey,held,there,name⟩ := lists.there id meta_ found
    have other : ∀ kept, request ≠ .push ⟨key,fileKey,id⟩ kept := by
      rintro kept rfl
      exact foreign rfl
    have later := @followNext _ _ _ _ open_ _ there sound meant other
    rw [foreignFollow foreign] at later
    exact ⟨fileKey,held,later,name⟩
  known fileKey id held found := by
    rcases nextFile sound found with rfl | ⟨was,before,follows,-⟩
    · exact absurd rfl foreign
    · cases foreignBefore foreign follows
      exact lists.known fileKey id held before

theorem listsRotated {new : Bytes} (lists : Lists c d key) (sound : Sound T d)
    (meant : T.meant d (.rotate key new)) : Lists c (d.next open_ (.rotate key new))
      (if d.answer open_ (.rotate key new) = .done then new else key) := by
  by_cases stored : key ∈ d.stored
  · have answered : d.answer open_ (.rotate key new) = .done := if_pos stored
    rw [if_pos answered]
    refine ⟨fun id meta_ found => ?_,fun fileKey id held found => ?_⟩
    · obtain ⟨fileKey,held,there,name⟩ := lists.there id meta_ found
      have later := @followNext _ _ _ _ open_ _ there sound meant (by simp)
      have moved : follow ⟨key,fileKey,id⟩ (.rotate key new) = ⟨new,fileKey,id⟩ := if_pos rfl
      rw [moved] at later
      exact ⟨fileKey,held,later,name⟩
    · rcases nextFile sound found with same | ⟨was,before,follows,-⟩
      · contradiction
      · simp only [follow] at follows
        split at follows
        · rename_i mine
          cases follows
          rw [← mine] at lists
          exact lists.known was.fileKey was.fileId held before
        · subst follows
          rw [(meant.2.2.2 stored).2 _ rfl] at before
          contradiction
  · have answered : d.answer open_ (.rotate key new) = .refused := if_neg stored
    have still : d.next open_ (.rotate key new) = d := if_neg stored
    rw [answered,still,if_neg (by decide)]
    exact lists

theorem listsPushed {name id fileKey : String} {content : Bytes} (lists : Lists c d key)
    (consistent : c.Consistent) (known : c.fileMap id = none ∨ id ∈ c.tracked name) (now : String) :
    Lists (c.updateOnPush now name id)
      (d.next open_ (.push ⟨key,fileKey,id⟩ ⟨name,content⟩)) key := by
  -- the entry has the name it is listed under
  obtain ⟨mine,entry,own⟩ := ((pushConsistent consistent now known).listed id name).mp
    (pushedListed c now name id)
  refine ⟨fun other meta_ found => ?_,fun otherKey other held found => ?_⟩
  · by_cases same : other = id
    · subst same
      cases Option.some.inj (entry.symm.trans found)
      exact ⟨fileKey,⟨name,content⟩,pushedFile,own.symm⟩
    · rw [pushedMapOther c now name same] at found
      obtain ⟨before,held,there,named⟩ := lists.there other meta_ found
      have differ : (⟨key,before,other⟩ : Slot) ≠ ⟨key,fileKey,id⟩ := by
        intro equal
        exact same (congrArg Slot.fileId equal)
      exact ⟨before,held,(Function.update_of_ne differ _ _).trans there,named⟩
  · by_cases same : (⟨key,otherKey,other⟩ : Slot) = ⟨key,fileKey,id⟩
    · cases same
      rw [pushedFile] at found
      cases found
      exact ⟨mine,entry,own.symm⟩
    · have before : d.files ⟨key,otherKey,other⟩ = some held :=
        (Function.update_of_ne same _ _).symm.trans found
      obtain ⟨meta_,was,named⟩ := lists.known otherKey other held before
      obtain ⟨later,after,kept⟩ := (pushKeeps c now name id).entry other meta_ was
      exact ⟨later,after,named.trans kept.symm⟩

theorem listsPulled {id : String} (lists : Lists c d key) (now : String) :
    Lists (c.updateOnPull now id) d key where
  there other meta_ found := by
    by_cases same : other = id
    · subst same
      cases before : c.fileMap other with
      | none =>
        simp only [updateOnPull,before] at found
        contradiction
      | some old =>
        rw [pulledMap now before] at found
        cases found
        exact lists.there other old before
    · rw [pulledMapOther c now same] at found
      exact lists.there other meta_ found
  known fileKey other held found := by
    obtain ⟨meta_,was,named⟩ := lists.known fileKey other held found
    obtain ⟨later,after,kept⟩ := (pullKeeps c now id).entry other meta_ was
    exact ⟨later,after,named.trans kept.symm⟩

end

structure Covered {S : Session} (N : Names S) (d : Depot) (h : Home) : Prop where
  serves : Serves N d h.server
  consistent : (readOrCreate h.disk).Consistent
  lists : Lists (readOrCreate h.disk) d h.key

section
variable {S : Session} {signing : Signing} {N : Names S} {d : Depot} {h g : Home}
  {request : Depot.Request}

theorem freshCovered {key : Bytes} {server : Host} (serves : Serves N d server)
    (nothing : ∀ fileKey id, d.files ⟨key,fileKey,id⟩ = none) : Covered N d ⟨none,key,server⟩ where
  serves := serves
  consistent := emptyConsistent
  lists := by
    refine ⟨fun id meta_ found => ?_,fun fileKey id held found => ?_⟩
    · simp [readOrCreate,Catalog.empty] at found
    · rw [nothing] at found
      contradiction

theorem stoppedCovered (covered : Covered N d h) (errand : Errand S signing h none g) :
    Covered N d g := by
  cases errand with
  | stopped failed =>
    simp only [ClientCommand.execute,failed]
    exact covered

variable (honest : S.ed25519 = signing.toEd25519)
  (strict : ∀ k m, m.length = 64 → S.ed25519.verifyStrict (signing.publicKey k).val m
    (signing.sign k m).val = true)
include honest strict

theorem exchangeAnswers {server after : Host} {reply : Reply} (serves : Serves N d server)
    (meant : N.trade.meant d request) (exchange : Exchange S signing server (request,reply) after) :
    reply = d.answer S.enableClientWhitelist request ∧
      Serves N (d.next S.enableClientWhitelist request) after :=
  serverImplements honest strict serves meant exchange

theorem servedCovered (covered : Covered N d h) (meant : N.trade.meant d request)
    (errand : Errand S signing h (some request) g) :
    Covered N (d.next S.enableClientWhitelist request) g := by
  have sound := covered.serves.holds.sound
  cases errand with
  | @push fileName answer uuid now fileKey fileId content reply after chosen drawn served =>
    obtain ⟨told,serves⟩ := exchangeAnswers honest strict covered.serves meant served
    have done : reply = .done := told
    subst done
    have known : (readOrCreate h.disk).fileMap fileId = none ∨
        fileId ∈ (readOrCreate h.disk).tracked fileName := by
      rcases chooseSource chosen with rfl | listed
      · exact .inl drawn
      · exact .inr listed
    have written : readOrCreate (ClientCommand.execute h.disk
        (.push fileName answer uuid (decide (Depot.Reply.done = .done)) now)).2 =
        (readOrCreate h.disk).updateOnPush now fileName fileId := by
      simp only [ClientCommand.execute,chosen,decide_true,if_true]
      rfl
    refine ⟨serves,?_,?_⟩
    · rw [written]
      exact pushConsistent covered.consistent now known
    · rw [written]
      exact listsPushed covered.lists covered.consistent known now
  | @pull fileKey fileId now reply after served =>
    obtain ⟨-,serves⟩ := exchangeAnswers honest strict covered.serves meant served
    have unmoved : readOrCreate (ClientCommand.execute h.disk (.pull fileId (pulled reply) now)).2 =
          readOrCreate h.disk ∨
        readOrCreate (ClientCommand.execute h.disk (.pull fileId (pulled reply) now)).2 =
          (readOrCreate h.disk).updateOnPull now fileId := by
      cases pulled reply with
      | false => exact .inl rfl
      | true =>
        cases h.disk with
        | none => exact .inl rfl
        | some c => exact .inr rfl
    refine ⟨serves,?_,?_⟩
    · rcases unmoved with same | updated
      · exact same.symm ▸ covered.consistent
      · exact updated.symm ▸ pullConsistent covered.consistent now fileId
    · rcases unmoved with same | updated
      · exact same.symm ▸ covered.lists
      · exact updated.symm ▸ listsPulled covered.lists now
  | @rotate new reply after served =>
    obtain ⟨told,serves⟩ := exchangeAnswers honest strict covered.serves meant served
    subst told
    exact ⟨serves,covered.consistent,listsRotated covered.lists sound meant⟩
  | aside foreign served =>
    obtain ⟨-,serves⟩ := exchangeAnswers honest strict covered.serves meant served
    exact ⟨serves,covered.consistent,listsAside covered.lists sound meant foreign⟩

theorem coveredRun {last : Home} {events : List (Option Depot.Request)}
    (ran : Traced (Errand S signing) h events last) (covered : Covered N d h)
    (orderly : (object N.trade S.enableClientWhitelist).Orderly d events.reduceOption) :
    Covered N ((object N.trade S.enableClientWhitelist).after d events.reduceOption) last := by
  induction ran generalizing d with
  | none h => exact covered
  | @more h event g rest last errand later ih =>
    cases event with
    | none =>
      rw [List.reduceOption_cons_of_none] at orderly ⊢
      exact ih (stoppedCovered covered errand) orderly
    | some request =>
      rw [List.reduceOption_cons_of_some] at orderly ⊢
      exact ih (servedCovered honest strict covered orderly.1 errand) orderly.2

/- What the catalog lists is what can be pulled, under the key that the client has now. -/
theorem listedIsServed {key : Bytes} {server : Host} {last : Home} {events : List (Option Depot.Request)}
    (ran : Traced (Errand S signing) ⟨none,key,server⟩ events last) (serves : Serves N d server)
    (nothing : ∀ fileKey id, d.files ⟨key,fileKey,id⟩ = none)
    (orderly : (object N.trade S.enableClientWhitelist).Orderly d events.reduceOption)
    (id name : String) :
    (∃ meta_, (readOrCreate last.disk).fileMap id = some meta_ ∧ meta_.name = name) ↔
      ∃ fileKey held, N.trade.Known ⟨last.key,fileKey,id⟩ ∧ held.fileName = name ∧ ∀ reply after,
        Exchange S signing last.server (.pull ⟨last.key,fileKey,id⟩,reply) after → reply = .file held := by
  have covered := coveredRun honest strict ran (freshCovered serves nothing) orderly
  let now := (object N.trade S.enableClientWhitelist).after d events.reduceOption
  constructor
  · rintro ⟨meta_,listed,rfl⟩
    obtain ⟨fileKey,held,there,named⟩ := covered.lists.there id meta_ listed
    have known := (covered.serves.holds.sound.files _ held there).2.1
    have meant : N.trade.meant now (.pull ⟨last.key,fileKey,id⟩) := known
    refine ⟨fileKey,held,known,named,fun reply after exchange => ?_⟩
    obtain ⟨told,-⟩ := exchangeAnswers honest strict covered.serves meant exchange
    exact told.trans (answerFound there)
  · rintro ⟨fileKey,held,known,rfl,always⟩
    have meant : N.trade.meant now (.pull ⟨last.key,fileKey,id⟩) := known
    obtain ⟨reply,after,exchange⟩ := @exchanged S signing last.server (.pull ⟨last.key,fileKey,id⟩) trivial
    obtain ⟨told,-⟩ := exchangeAnswers honest strict covered.serves meant exchange
    have there : now.files ⟨last.key,fileKey,id⟩ = some held :=
      answersFile.mp (told.symm.trans (always reply after exchange))
    obtain ⟨meta_,listed,named⟩ := covered.lists.known fileKey id held there
    exact ⟨meta_,listed,named.symm⟩

end

open Handshake (flatKey)

/- The first command of a new client registers its key, and the last one replaces it. -/
theorem morningListed : ∃ last fileKey held,
    Traced (Errand openServer echoSigning) ⟨none,nine,emptyHost⟩ (morning.map some) last ∧
      held.fileName = "dummy.bin" ∧ ∀ reply after, Exchange openServer echoSigning last.server
        (.pull ⟨last.key,fileKey,"4a43afa64e9342fc8320e63a43eb193b"⟩,reply) after → reply = .file held := by
  obtain ⟨_,registered,registers⟩ := @exchanged openServer echoSigning emptyHost (.register nine)
    ⟨flatKey 9,rfl⟩
  obtain ⟨reply,pushed,pushes⟩ := @exchanged openServer echoSigning registered
    (.push (sampleSlot 9) zeros) trivial
  obtain ⟨_,rotated,rotates⟩ := @exchanged openServer echoSigning pushed (.rotate nine eight)
    ⟨flatKey 9,flatKey 8,rfl,rfl⟩
  obtain ⟨-,serves⟩ := @exchangeAnswers openServer echoSigning sampleNames emptyDepot (.register nine)
    rfl sampleStrict _ _ _ emptyServes (flatKey 9).property registers
  obtain ⟨told,-⟩ := @exchangeAnswers openServer echoSigning sampleNames _ (.push (sampleSlot 9) zeros)
    rfl sampleStrict _ _ _ serves ⟨sampleKnown 9,zerosDeliverable 9⟩ pushes
  cases told
  have first : Errand openServer echoSigning ⟨none,nine,emptyHost⟩ (some (.register nine))
      ⟨none,nine,registered⟩ := .aside trivial registers
  have second := @Errand.push openServer echoSigning ⟨none,nine,registered⟩ "dummy.bin" none
    "4a43afa64e9342fc8320e63a43eb193b" "today" "ronak" "4a43afa64e9342fc8320e63a43eb193b" _ _ pushed
    rfl rfl pushes
  have whole := Traced.more first (.more second (.more (.rotate rotates) (.none _)))
  have orderly := dayOrderly
  rw [← morningDay] at orderly
  have start := ((Object.orderlyAppend _).mp orderly).1
  obtain ⟨fileKey,held,-,named,always⟩ := (@listedIsServed openServer echoSigning sampleNames emptyDepot rfl
    sampleStrict nine emptyHost _ _ whole emptyServes (fun _ _ => rfl) start
    "4a43afa64e9342fc8320e63a43eb193b" "dummy.bin").mp ⟨_,rfl,rfl⟩
  exact ⟨_,fileKey,held,whole,named,always⟩

end RDrive.CatalogServed
