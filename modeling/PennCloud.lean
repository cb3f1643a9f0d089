import PennCloud.Lib.Runs
import PennCloud.Lib.Updates
import PennCloud.Store.Disk
import PennCloud.Store.Transfer
import PennCloud.Proof.TableRefinement
import PennCloud.Proof.ReplicaFollows
import PennCloud.Proof.Durability
import PennCloud.Proof.SeqNumbers
import PennCloud.Proof.Framing
import PennCloud.Master.Promotion
import PennCloud.Master.Where
import PennCloud.Concurrent.Cput
import PennCloud.Concurrent.ReplicationOrder
import PennCloud.Concurrent.HoldBack
import PennCloud.Concurrent.Recovery
import PennCloud.Concurrent.Pausing
import PennCloud.Storage.Failover
import PennCloud.Proof.Mailboxes
import PennCloud.Proof.MailText
import PennCloud.Proof.Retrieval
import PennCloud.Proof.Injection
import PennCloud.Proof.Files
import PennCloud.Proof.Isolation
import PennCloud.Webmail.Packets
import PennCloud.Webmail.MailQueue
import PennCloud.Concurrent.HealthCheck
import PennCloud.Master.Multicast
import PennCloud.Concurrent.RecoveryLine
import PennCloud.Proof.BodyLoops
import PennCloud.Store.Faults
import PennCloud.Proof.InStep
import PennCloud.Master.Placement
import PennCloud.Proof.Rejections
import PennCloud.Proof.Reread
import PennCloud.Proof.Overlap
import PennCloud.Proof.LastRecord
import PennCloud.Proof.Transfers
import PennCloud.Proof.Release
import PennCloud.Master.Config
import PennCloud.Proof.Listings
import PennCloud.Storage.Helpers
import PennCloud.Proof.Decoded
import PennCloud.Storage.Lookups
import PennCloud.Proof.Creations
import PennCloud.Webmail.Deletions
import PennCloud.Webmail.QueueFile
import PennCloud.Webmail.Headers
import PennCloud.Proof.Replies
import PennCloud.Frontend.RequestReader
import PennCloud.Frontend.IndexLinks
import PennCloud.Frontend.UploadForm
import PennCloud.Frontend.Scanning
import PennCloud.Frontend.Templates
import PennCloud.Webmail.SmtpSafety
import PennCloud.Frontend.AdminPage
import PennCloud.Proof.BufferTail
import PennCloud.Concurrent.ThreadPool
import PennCloud.Concurrent.Acknowledged
import PennCloud.Concurrent.HandOver
import PennCloud.Proof.Accounts
import PennCloud.Proof.Downloads
import PennCloud.Proof.Whereabouts
import PennCloud.Proof.OverTheWire
import PennCloud.Webmail.Dialogue
import PennCloud.Proof.Sending
import PennCloud.Frontend.GetRequest
import PennCloud.Proof.SignedIn
import PennCloud.Proof.Posted
