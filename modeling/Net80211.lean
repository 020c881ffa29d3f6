import Net80211.Proofs.NonceUnique
import Net80211.Proofs.UsbExactlyOnce
import Net80211.Proofs.UrtwnCmdq
import Net80211.Proofs.IwmCmd
import Net80211.Proofs.Duplicates
import Net80211.Proofs.WpaScan
import Net80211.Proofs.Associate
import Net80211.Proofs.Eloop
import Net80211.Proofs.Event
import Net80211.Proofs.WpaConnect
import Net80211.Proofs.UsbTask
import Net80211.Proofs.Teardown
import Net80211.Proofs.RecvMgmt
import Net80211.Proofs.CipherNegotiation
import Net80211.Proofs.OutputQueue
import Net80211.Proofs.CryptoHead
import Net80211.Proofs.UrtwnResources
import Net80211.Proofs.UrtwnRx
import Net80211.Proofs.IwmRx
import Net80211.Proofs.IwmTxRing
import Net80211.Proofs.IwmDma
import Net80211.Proofs.IwmLinkQuality
import Net80211.Proofs.IwmNvm
import Net80211.Proofs.UsbToggle
import Net80211.Proofs.Beacon
import Net80211.Proofs.Erp
import Net80211.Proofs.Tsleep
import Net80211.Proofs.UrtwnFirmware
import Net80211.Proofs.Scan
import Net80211.Proofs.NodeTable
import Net80211.Proofs.Memory
import Net80211.Proofs.Calendar
