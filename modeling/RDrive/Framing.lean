import RDrive.Acceptance
import RDrive.Handshake

/-! What a stream begins with, frame by frame, and what the readers of a frame make of
any stream at all. -/
namespace RDrive
open Crypto Header Party Bytes Program

theorem Frame.be32From {four : Bytes} (size : four.length = 4) :
    Frame.be32 (Frame.fromBe32 four) = four := by
  obtain ⟨a,b,c,d,rfl⟩ := List.length_eq_four.mp size
  have boundA := a.toNat_lt
  have boundB := b.toNat_lt
  have boundC := c.toNat_lt
  have boundD := d.toNat_lt
  have byte : ∀ (n : Nat) (x : UInt8), n % 256 = x.toNat → n.toUInt8 = x := by
    intro n x same
    apply UInt8.toNat_inj.mp
    simpa only [Nat.toUInt8,UInt8.toNat_ofNat'] using same
  simp only [Frame.fromBe32,Frame.be32]
  rw [byte _ a (by omega),byte _ b (by omega),byte _ c (by omega),byte _ d (by omega)]

structure Framed (input data rest : Bytes) : Prop where
  stream : input = Handshake.rawFrame data ++ rest
  some_ : 0 < data.length
  bounded : data.length ≤ Frame.maxFrameLength

theorem framedShort {input data rest : Bytes} (short : input.length < 4) : ¬ Framed input data rest := by
  rintro ⟨rfl,-,-⟩
  simp only [Handshake.rawFrame,List.length_append,Frame.be32Length] at short
  omega

theorem framedHead {four later data rest : Bytes} (size : four.length = 4) :
    Framed (four ++ later) data rest ↔
      Frame.admitLength (Frame.fromBe32 four) = .ok data.length ∧ later = data ++ rest := by
  constructor
  · rintro ⟨stream,some_,bounded⟩
    rw [Handshake.rawFrame,List.append_assoc] at stream
    obtain ⟨rfl,rfl⟩ := List.append_inj stream (size.trans (Frame.be32Length _).symm)
    exact ⟨Session.lengthAdmitted some_ bounded,rfl⟩
  · rintro ⟨admitted,rfl⟩
    unfold Frame.admitLength at admitted
    split at admitted <;> try contradiction
    rename_i inside
    have length := Outcome.ok.inj admitted
    refine ⟨?_,by omega,by omega⟩
    rw [Handshake.rawFrame,← length,Frame.be32From size,List.append_assoc]

theorem framedUnique {input one other left right : Bytes} (first : Framed input one left)
    (second : Framed input other right) : one = other ∧ left = right := by
  obtain ⟨rfl,some_,bounded⟩ := first
  have head := second
  rw [Handshake.rawFrame,List.append_assoc,framedHead (Frame.be32Length _)] at head
  rw [Session.lengthAdmitted some_ bounded] at head
  exact List.append_inj head.2 (Outcome.ok.inj head.1)

theorem framedOf {data : Bytes} (some_ : 0 < data.length) (bounded : data.length ≤ Frame.maxFrameLength)
    (rest : Bytes) : Framed (Handshake.rawFrame data ++ rest) data rest := ⟨rfl,some_,bounded⟩

theorem framedThen {input data : Bytes} (framed : Framed input data []) (rest : Bytes) :
    Framed (input ++ rest) data rest := by
  obtain ⟨rfl,some_,bounded⟩ := framed
  exact ⟨by rw [List.append_nil],some_,bounded⟩

def stream (frames : List Bytes) : Bytes := (frames.map Handshake.rawFrame).flatten

def Begins : Bytes → List Bytes → Prop
  | _, [] => True
  | input, data :: frames => ∃ rest, Framed input data rest ∧ Begins rest frames

theorem framedMore {input more data rest : Bytes} (framed : Framed input data rest)
    (begins : input <+: more) : ∃ left, Framed more data left ∧ rest <+: left := by
  obtain ⟨rfl,some_,bounded⟩ := framed
  obtain ⟨left,rfl⟩ := begins
  exact ⟨rest ++ left,⟨by rw [List.append_assoc],some_,bounded⟩,List.prefix_append _ _⟩

theorem beginsMore {frames : List Bytes} {input more : Bytes} (begins : Begins input frames)
    (grows : input <+: more) : Begins more frames := by
  induction frames generalizing input more with
  | nil => trivial
  | cons data frames ih =>
    obtain ⟨rest,framed,later⟩ := begins
    obtain ⟨left,first,grown⟩ := framedMore framed grows
    exact ⟨left,first,ih later grown⟩

theorem streamBegins {frames told : List Bytes}
    (sized : ∀ data ∈ frames, 0 < data.length ∧ data.length ≤ Frame.maxFrameLength)
    (begins : Begins (stream frames) told) : told <+: frames := by
  induction frames generalizing told with
  | nil =>
    cases told with
    | nil => exact List.prefix_refl _
    | cons data more =>
      obtain ⟨rest,framed,-⟩ := begins
      exact absurd framed (framedShort (by decide))
  | cons data frames ih =>
    cases told with
    | nil => exact List.nil_prefix
    | cons head more =>
      have inside := sized data List.mem_cons_self
      obtain ⟨rest,framed,later⟩ := begins
      obtain ⟨rfl,rfl⟩ := framedUnique (framedOf inside.1 inside.2 (stream frames)) framed
      rw [List.cons_prefix_cons]
      exact ⟨rfl,ih (fun d member => sized d (List.mem_cons_of_mem _ member)) later⟩

theorem streamThen {frames more : List Bytes} {rest : Bytes}
    (sized : ∀ data ∈ frames, 0 < data.length ∧ data.length ≤ Frame.maxFrameLength)
    (begins : Begins rest more) : Begins (stream frames ++ rest) (frames ++ more) := by
  induction frames with
  | nil => exact begins
  | cons data frames ih =>
    have inside := sized data List.mem_cons_self
    refine ⟨stream frames ++ rest,⟨?_,inside.1,inside.2⟩,
      ih fun d member => sized d (List.mem_cons_of_mem _ member)⟩
    exact List.append_assoc _ _ _

theorem streamWhole {frames : List Bytes}
    (sized : ∀ data ∈ frames, 0 < data.length ∧ data.length ≤ Frame.maxFrameLength) :
    Begins (stream frames) frames := by
  have told := @streamThen frames [] [] sized trivial
  simpa using told

theorem recvReached {σ : Type} {env : Env (Port HostSig) σ} {s t : σ} {n : Nat}
    {r : Except Fault {b : Bytes // b.length = n}} (answered : env s (.recv n) r t) :
    Reaches env (recv n) s (.done (.ok r)) t := .answer answered (.here _ _)

theorem rawFed (late : String) (h : Host) (input output : Bytes) (asked : List Nat) :
    (∃ data rest made, Framed input data rest ∧
      Reaches feeding (Handshake.readRawDataInto late) ⟨h,input,output,asked⟩ (.done (.ok data))
        ⟨h,rest,output,made⟩) ∨
    ((∀ data rest, ¬ Framed input data rest) ∧ ∃ message rest made,
      Reaches feeding (Handshake.readRawDataInto late) ⟨h,input,output,asked⟩ (.done (.err message))
        ⟨h,rest,output,made⟩) := by
  unfold Handshake.readRawDataInto
  by_cases short : input.length < 4
  · have ended := recvReached (fedEnd (s := ⟨h,input,output,asked⟩) short)
    exact .inr ⟨fun _ _ => framedShort short,_,_,_,reachesThen ended (.here _ _)⟩
  obtain ⟨four,later,size,rfl⟩ := frontTaken short
  have read := recvReached (fedRead (s := ⟨h,four ++ later,output,asked⟩) size (by decide) rfl)
  cases admitted : Frame.admitLength (Frame.fromBe32 four) with
  | panic =>
    unfold Frame.admitLength at admitted
    split at admitted <;> contradiction
  | err message =>
    refine .inr ⟨fun data rest framed => ?_,message,later,asked ++ [4],reachesThen read ?_⟩
    · rw [framedHead size,admitted] at framed
      exact nomatch framed.1
    · simp only [admitted,Program.liftDone,Program.bindErr]
      exact .here _ _
  | ok len =>
    by_cases cut : later.length < len
    · have ended := recvReached (fedEnd (s := ⟨h,later,output,asked ++ [4]⟩) cut)
      refine .inr ⟨fun data rest framed => ?_,"early eof",[],asked ++ [4] ++ [len],
        reachesThen read ?_⟩
      · rw [framedHead size,admitted] at framed
        obtain ⟨same,rfl⟩ := framed
        rw [List.length_append,Outcome.ok.inj same] at cut
        omega
      · simp only [admitted,Program.liftDone,Program.bindDone]
        exact reachesThen ended (.here _ _)
    · obtain ⟨data,rest,rfl,length⟩ : ∃ data rest, later = data ++ rest ∧ data.length = len :=
        ⟨later.take len,later.drop len,(List.take_append_drop len later).symm,by
          rw [List.length_take]; omega⟩
      have framed : Framed (four ++ (data ++ rest)) data rest := by
        rw [framedHead size,admitted,length]
        exact ⟨rfl,rfl⟩
      have positive := framed.some_
      have whole := recvReached (fedRead (s := ⟨h,data ++ rest,output,asked ++ [4]⟩) length (by omega) rfl)
      refine .inl ⟨data,rest,asked ++ [4] ++ [len],framed,reachesThen read ?_⟩
      simp only [admitted,Program.liftDone,Program.bindDone]
      exact reachesThen whole (.here _ _)

namespace Session
variable {S : Session}

def Carries (S : Session) (input data rest : Bytes) : Prop :=
  ∃ box, Framed input box rest ∧ S.cipher.opened S.sessionKey box = some data

theorem carriesUnique {input one other left right : Bytes} (first : S.Carries input one left)
    (second : S.Carries input other right) : one = other ∧ left = right := by
  obtain ⟨box,framed,opened⟩ := first
  obtain ⟨box',framed',opened'⟩ := second
  obtain ⟨rfl,rest⟩ := framedUnique framed framed'
  exact ⟨Option.some.inj (opened.symm.trans opened'),rest⟩

theorem carriesFrame {data : Bytes} (small : nonceLen + data.length + tagLen ≤ Frame.maxFrameLength)
    (nonce : Nonce) (rest : Bytes) :
    S.Carries (Frame.frame S.cipher S.sessionKey nonce data ++ rest) data rest := by
  have size := S.cipher.sealedLength S.sessionKey nonce data
  refine ⟨S.cipher.sealed S.sessionKey nonce data,⟨?_,?_,by omega⟩,S.cipher.openedSealed _ _ _⟩
  · rw [Handshake.rawFrame,size]
    rfl
  · have positive : 0 < nonceLen := by decide
    omega

theorem lengthFed (h : Host) {four : Bytes} (size : four.length = 4) (later output : Bytes)
    (asked : List Nat) : Reaches feeding readFrameLength ⟨h,four ++ later,output,asked⟩
      (.done (Frame.admitLength (Frame.fromBe32 four))) ⟨h,later,output,asked ++ [4]⟩ := by
  have read := recvReached (fedRead (s := ⟨h,four ++ later,output,asked⟩) size (by decide) rfl)
  exact reachesThen read (.here _ _)

theorem boxFed (S : Session) (h : Host) {four box : Bytes} (rest output : Bytes) (asked : List Nat)
    (size : four.length = 4) (admitted : Frame.admitLength (Frame.fromBe32 four) = .ok box.length)
    (long : ¬ box.length < nonceLen + tagLen)
    (length : Reaches feeding readFrameLength ⟨h,four ++ (box ++ rest),output,asked⟩
      (.done (.ok box.length)) ⟨h,box ++ rest,output,asked ++ [4]⟩) :
    (∃ data made, S.Carries (four ++ (box ++ rest)) data rest ∧
      Reaches feeding S.readEncryptDataInto ⟨h,four ++ (box ++ rest),output,asked⟩ (.done (.ok data))
        ⟨h,rest,output,made⟩) ∨
    ((∀ data rest', ¬ S.Carries (four ++ (box ++ rest)) data rest') ∧ ∃ message made,
      Reaches feeding S.readEncryptDataInto ⟨h,four ++ (box ++ rest),output,asked⟩ (.done (.err message))
        ⟨h,rest,output,made⟩) := by
  unfold readEncryptDataInto
  have framed : Framed (four ++ (box ++ rest)) box rest := by
    rw [framedHead size,admitted]
    exact ⟨rfl,rfl⟩
  have positive := framed.some_
  have whole : Reaches feeding (readExact box.length) ⟨h,box ++ rest,output,asked ++ [4]⟩
      (.done (.ok ⟨box,rfl⟩)) ⟨h,rest,output,asked ++ [4] ++ [box.length]⟩ :=
    .answer (fedRead rfl (by omega) rfl) (.here _ _)
  cases opened : S.cipher.opened S.sessionKey box with
  | none =>
    refine .inr ⟨?_,"aead::Error",asked ++ [4] ++ [box.length],reachesThen length ?_⟩
    · rintro data rest' ⟨other,also,opens⟩
      rw [(framedUnique also framed).1,opened] at opens
      contradiction
    · rw [if_neg long]
      refine reachesThen whole ?_
      simp only [opened,Outcome.ofOption,Program.liftDone]
      exact .here _ _
  | some data =>
    refine .inl ⟨data,asked ++ [4] ++ [box.length],⟨box,framed,opened⟩,reachesThen length ?_⟩
    rw [if_neg long]
    refine reachesThen whole ?_
    simp only [opened,Outcome.ofOption,Program.liftDone]
    exact .here _ _

theorem bodyFed (S : Session) (h : Host) (input output : Bytes) (asked : List Nat) :
    (∃ data rest made, S.Carries input data rest ∧
      Reaches feeding S.readEncryptDataInto ⟨h,input,output,asked⟩ (.done (.ok data))
        ⟨h,rest,output,made⟩) ∨
    ((∀ data rest, ¬ S.Carries input data rest) ∧ ∃ message rest made,
      Reaches feeding S.readEncryptDataInto ⟨h,input,output,asked⟩ (.done (.err message))
        ⟨h,rest,output,made⟩) := by
  by_cases short : input.length < 4
  · have ended := recvReached (fedEnd (s := ⟨h,input,output,asked⟩) short)
    have length : Reaches feeding readFrameLength ⟨h,input,output,asked⟩
        (.done (.err s!"Read error: {Fault.text .eof}")) ⟨h,[],output,asked ++ [4]⟩ :=
      reachesThen ended (.here _ _)
    refine .inr ⟨?_,_,_,_,reachesBind length⟩
    exact fun _ _ ⟨box,framed,_⟩ => framedShort short framed
  obtain ⟨four,later,size,rfl⟩ := frontTaken short
  have length := lengthFed h size later output asked
  cases admitted : Frame.admitLength (Frame.fromBe32 four) with
  | panic =>
    unfold Frame.admitLength at admitted
    split at admitted <;> contradiction
  | err message =>
    rw [admitted] at length
    refine .inr ⟨?_,message,_,_,reachesBind length⟩
    rintro data rest ⟨box,framed,-⟩
    rw [framedHead size,admitted] at framed
    exact nomatch framed.1
  | ok len =>
    rw [admitted] at length
    by_cases cut : later.length < len ∨ len < nonceLen + tagLen
    · have closed : ∀ data rest, ¬ S.Carries (four ++ later) data rest := by
        rintro data rest ⟨box,framed,opened⟩
        have long := S.cipher.openedLength opened
        rw [framedHead size,admitted] at framed
        obtain ⟨same,rfl⟩ := framed
        rw [List.length_append,Outcome.ok.inj same] at cut
        omega
      by_cases tiny : len < nonceLen + tagLen
      · refine .inr ⟨closed,s!"Frame length too short for encrypted header: {len}",later,asked ++ [4],
          reachesThen length ?_⟩
        rw [if_pos tiny]
        exact .here _ _
      · have ended := fedEnd (s := ⟨h,later,output,asked ++ [4]⟩) (cut.resolve_right tiny)
        refine .inr ⟨closed,"early eof",[],asked ++ [4] ++ [len],reachesThen length ?_⟩
        rw [if_neg tiny]
        exact .answer ended (.here _ _)
    · obtain ⟨box,rest,rfl,rfl⟩ : ∃ box rest, later = box ++ rest ∧ box.length = len :=
        ⟨later.take len,later.drop len,(List.take_append_drop len later).symm,by
          rw [List.length_take]; omega⟩
      rcases boxFed S h rest output asked size admitted (fun tiny => cut (.inr tiny)) length with
        ⟨data,made,carries,read⟩ | ⟨closed,message,made,read⟩
      · exact .inl ⟨data,rest,made,carries,read⟩
      · exact .inr ⟨closed,message,rest,made,read⟩

end Session
end RDrive
