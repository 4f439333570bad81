import NoSpam.Mail.Process

/-!
# Requests and replies

The five lines in which the loader sends a mail and the three lines of the reply.  There are two
entry points: `net_process_ex` on the standard streams of the prefork daemon, and `net_process` on
a socket.  They differ in that the first deletes white space from the envelope and the second
looks at the licence before it replies.
-/

namespace NoSpam

open Text Perl

/-- `s/\r|\r\n|\n//g`. -/
def stripLineEnds (line : Bytes) : Bytes := line.filter fun c => c ≠ 13 && c ≠ 10

/-- The common body of `recv_mail_info_ex` and `recv_mail_info`; `tidy` is what happens to the
envelope. -/
def recvLines (tidy : Bytes → Bytes) (input : Bytes) : Aka :=
  let l1 := readLine 10 input
  let l2 := readLine 10 l1.2
  let l3 := readLine 10 l2.2
  let l4 := readLine 10 l3.2
  let l5 := readLine 10 l4.2
  { relayclient := stripLineEnds l1.1
    tcpremoteip := stripLineEnds l2.1
    tcpremoteinfo := stripLineEnds l3.1
    emlfilename := stripLineEnds l4.1
    fd1 := tidy (stripLineEnds l5.1) }

/-- `recv_mail_info_ex`. -/
def recvMailInfoEx : Bytes → Aka := recvLines fun fd1 => fd1.filter (!isWhite ·)

/-- `recv_mail_info`. -/
def recvMailInfo : Bytes → Aka := recvLines id

/-- Three lines. -/
def replyLines (code info exit : Bytes) : List Bytes := [code ++ [10], info ++ [10], exit ++ [10]]

/-- `send_mail_info_ex`: the lines it prints. -/
def sendMailInfoEx (r : Resp) : List Bytes :=
  replyLines (orElse r.smtpCode []) (orElse r.smtpInfo []) (orElse r.exitCode (bytes "0"))

/-- `send_mail_info`: the lines it prints. -/
def sendMailInfo (tr : Bytes → Bytes) (licenseOk : Bool) (r : Resp) : List Bytes :=
  if licenseOk then sendMailInfoEx r
  else
    [bytes "553\n", tr (bytes "Sorry, System had no valid license now, It still can't work.\n"),
      bytes "150\n"]

/-- A mail on its way to the daemon: what the loader writes to it, the message file it has spooled,
and what the pipeline will ask of the world. -/
structure Request where
  stdin : Bytes
  file : Bytes
  message : Bytes
  outside : Outside
  order : HashOrder

namespace Mail

/-- The message file is in the spool and `mail_info` holds what the loader has sent. -/
def receive (recv : Bytes → Aka) (r : Request) (m : Mail) : Mail :=
  { m with aka := recv r.stdin, fs := Store.write r.file r.message m.fs }

/-- `net_process_ex` up to the reply. -/
def netProcessEx (r : Request) (m : Mail) : Mail :=
  (m.receive recvMailInfoEx r).process r.outside r.order

/-- `net_process` up to the reply, in the child forked for the connection, when neither of its own
alarms goes off. -/
def netProcess (r : Request) (m : Mail) : Mail :=
  (m.receive recvMailInfo r).process r.outside r.order

end Mail

end NoSpam
