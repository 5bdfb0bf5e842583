import Lrndis.Lib.Run
import Lrndis.Lib.Cut
import Lrndis.Lib.Lease
import Lrndis.Receive.Proofs
import Lrndis.Transmit.Host
import Lrndis.App.LinkProofs
import Lrndis.Dhcp.Proofs
import Lrndis.Device.Code
import Lrndis.Device.Reinit
import Lrndis.Dns.Code
import Lrndis.Lib.DnsFormat
import Lrndis.Dns.Parse
import Lrndis.Dns.Reply
import Lrndis.App.Pbufs
import Lrndis.Dhcp.Pool
import Lrndis.Dns.Encoded
import Lrndis.Dhcp.Options
import Lrndis.Dhcp.Offer
import Lrndis.Dhcp.Stale
import Lrndis.Receive.Oversize
import Lrndis.Device.Loopback
import Lrndis.Control.Completion
import Lrndis.Control.Tracking
import Lrndis.App.Polling
import Lrndis.Time.Exact
import Lrndis.Dhcp.Requests
import Lrndis.Dhcp.Dispatch
import Lrndis.Dhcp.Replies
import Lrndis.Time.Clock
import Lrndis.Time.Walk
import Lrndis.Time.Pass
import Lrndis.Control.Information
import Lrndis.Device.Statistics
import Lrndis.Dns.Names
import Lrndis.Dns.Questions
import Lrndis.Time.SysTick
import Lrndis.Time.Utime
import Lrndis.App.Cgi
import Lrndis.App.CgiProofs
import Lrndis.Receive.Reassembly
import Lrndis.Time.List
import Lrndis.Dns.Bounds
import Lrndis.Dhcp.Bounds
import Lrndis.App.Site
import Lrndis.App.SiteProofs
import Lrndis.Http.Ledger
import Lrndis.Usb.Fifo
import Lrndis.Control.Faults
