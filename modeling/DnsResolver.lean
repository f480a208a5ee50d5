import DnsResolver.Main
import DnsResolver.Reader.Stack
import DnsResolver.Resolver.Run
import DnsResolver.Proofs.Packet.RoundTrip
import DnsResolver.Proofs.Reader.Grammar
import DnsResolver.Proofs.Resolver.Budget
import DnsResolver.Proofs.Resolver.Provenance
import DnsResolver.Proofs.Resolver.Servers
import DnsResolver.Proofs.Cache.Freshness
import DnsResolver.Proofs.Cache.Recency
import DnsResolver.Proofs.Queue.WakeUps
import DnsResolver.Proofs.Resolver.Logging
import DnsResolver.Proofs.Resolver.Draws
import DnsResolver.Proofs.Resolver.Spellings
import DnsResolver.Proofs.Name.Hierarchy
import DnsResolver.Proofs.Name.Validation
import DnsResolver.Proofs.Resolver.Failover
import DnsResolver.Proofs.Resolver.Aliases
import DnsResolver.Proofs.Name.Sameness
import DnsResolver.Proofs.Reader.Bounds
import DnsResolver.Proofs.Packet.Grammar
import DnsResolver.Proofs.Packet.Frames
import DnsResolver.Proofs.Packet.Lengths
import DnsResolver.Proofs.Packet.Prefixes
import DnsResolver.Proofs.Cache.Purging
import DnsResolver.Proofs.Queue.Order
import DnsResolver.Proofs.Resolver.Referrals
import DnsResolver.Proofs.Header.Edits
import DnsResolver.Proofs.Reader.Safety
