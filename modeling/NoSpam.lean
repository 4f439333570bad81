import NoSpam.Base.Text
import NoSpam.Base.Capture
import NoSpam.Base.Decimal
import NoSpam.Base.Scalar
import NoSpam.Base.Stream
import NoSpam.Base.Store
import NoSpam.Base.Run
import NoSpam.Base.Gate
import NoSpam.Base.Table
import NoSpam.Base.Steady
import NoSpam.Base.Patch
import NoSpam.Base.Columns
import NoSpam.Base.Records
import NoSpam.Base.Assoc
import NoSpam.Base.Cipher
import NoSpam.Base.Php
import NoSpam.Base.Numeric
import NoSpam.Base.Inode
import NoSpam.Conf
import NoSpam.Content.Parser
import NoSpam.Content.Rule
import NoSpam.Mail.Info
import NoSpam.Content.Filter
import NoSpam.Content.Steady
import NoSpam.Content.Priority
import NoSpam.Content.Label
import NoSpam.Content.Update
import NoSpam.Content.Merge
import NoSpam.Dynamic.Limiter
import NoSpam.Dynamic.Ban
import NoSpam.Dynamic.Window
import NoSpam.Dynamic.Shared
import NoSpam.Dynamic.Concurrent
import NoSpam.Mail.Queue
import NoSpam.Mail.Engines
import NoSpam.Mail.Quarantine
import NoSpam.Mail.Process
import NoSpam.Mail.Verdict
import NoSpam.Mail.Frame
import NoSpam.Mail.Requeue
import NoSpam.Mail.Transport
import NoSpam.Mail.Session
import NoSpam.Mail.Envelope
import NoSpam.Loader.Reply
import NoSpam.Loader.Submit
import NoSpam.Mail.Copies
import NoSpam.Command.Quarantine
import NoSpam.Mail.Release
import NoSpam.Mail.Daemon
import NoSpam.Log.Line
import NoSpam.Log.Report
import NoSpam.Files.Replace
import NoSpam.Domain.Control
import NoSpam.Domain.Reset
import NoSpam.Admin.Profile
import NoSpam.Admin.WellFormed
import NoSpam.Login.BlackList
import NoSpam.Login.Effect
import NoSpam.Login.Attribution
import NoSpam.Login.Lockout
import NoSpam.Login.Requests
import NoSpam.Admin.ConfFile
import NoSpam.Files.ConfigTiny
import NoSpam.Files.EngineConf
import NoSpam.Mail.Spam
import NoSpam.Admin.Lists
import NoSpam.Admin.EmailUser
import NoSpam.License.License
import NoSpam.License.Seal
import NoSpam.Base.CString
import NoSpam.License.Library
import NoSpam.License.LibraryLaws
import NoSpam.Source.Encrypt
import NoSpam.Source.Filter
import NoSpam.Mail.ConfUpdate
import NoSpam.Mail.Clamd
import NoSpam.Admin.ConfRequests
import NoSpam.Admin.Domains
import NoSpam.Admin.DomainLimits
import NoSpam.Admin.SpamList
import NoSpam.Admin.SpamListLaws
import NoSpam.Loader.Spool
import NoSpam.Mail.Archive
import NoSpam.Base.Form
import NoSpam.Admin.RuleForm
import NoSpam.Admin.RuleFormLaws
import NoSpam.Base.Word
import NoSpam.Login.AddressList
import NoSpam.Login.StoredList
import NoSpam.Base.Runs
import NoSpam.Dynamic.RateForm
import NoSpam.Base.Url
import NoSpam.Base.Html
import NoSpam.Dynamic.Realtime
import NoSpam.Admin.FileTypes
import NoSpam.Admin.FileTypesLaws
import NoSpam.Mail.WriteQueue
import NoSpam.Mail.HeaderActions
import NoSpam.Base.Pattern
import NoSpam.Mail.HeaderEnd
import NoSpam.Command.SendEnvelope
import NoSpam.Mail.Recipients
import NoSpam.Mail.SpamChecker
import NoSpam.Mail.DomainLists
import NoSpam.Mail.SA
import NoSpam.Mail.SALaws
import NoSpam.Mail.AuthProxy
import NoSpam.Base.Binary
import NoSpam.Mail.IPUtil
import NoSpam.Mail.IPNotations
import NoSpam.Mail.IPClient
import NoSpam.Admin.IPEntries
import NoSpam.Dynamic.BanCap
import NoSpam.Mail.Traceable
import NoSpam.Content.SizeValue
import NoSpam.Admin.SizeForm
import NoSpam.Content.SubRuleLaws
import NoSpam.Content.Attachments
import NoSpam.Content.AttachmentType
import NoSpam.GA.Packet
import NoSpam.Mail.RouteCopies
import NoSpam.Mail.VirusName
import NoSpam.Mail.QuarantineInfo
import NoSpam.Admin.Paging
import NoSpam.Domain.Dnat
import NoSpam.Domain.Netfilter
import NoSpam.Base.LineTable
import NoSpam.Mail.Controler
import NoSpam.Mail.ControlerLaws
import NoSpam.GA.RulePackage
import NoSpam.GA.RuleUpdate
import NoSpam.GA.LogUpdate
import NoSpam.GA.Server
import NoSpam.Source.Batch
import NoSpam.GA.Evidence
import NoSpam.Mail.Status
import NoSpam.Base.Codec
import NoSpam.Mail.ArchiveExport
import NoSpam.Base.Lock
import NoSpam.Command.MailQueue
import NoSpam.Admin.PersonalLists
import NoSpam.Admin.UserList
